import RemoteTable.CommandLine.Arguments
import RemoteTable.Proofs.Response.Readings

/-!
# What the arguments of a command line say

The arguments of a command line are scanned from left to right. Its operands are the word of the
command, its table, and fields or assignments (`operandsIn`); identifiers and filters are the values of
options, attached to them or in the argument behind (`idsIn`, `filtersIn`). A part of a command line
that is understood was read argument by argument (`Given.Reading`), so that nothing of this is lost or
put in another order: a command is the one that its arguments write
(`CommandLine.writtenIn_of_ofArguments`), about the records that they name
(`CommandLine.ids_of_ofArguments`).
-/

namespace RemoteTable

/-! ## Scans -/

/-- The identifiers that arguments name from left to right: each stands behind an argument of its own
or behind an equals sign, and nothing behind the separator counts. -/
def idsIn : List String → List String
  | [] => []
  | argument :: rest =>
    match argument.toList with
    | ['-', '-'] => []
    | ['-', '-', 'i', 'd'] => rest.head?.toList ++ idsIn rest
    | '-' :: '-' :: 'i' :: 'd' :: '=' :: value => String.ofList value :: idsIn rest
    | _ => idsIn rest

/-- The filters that arguments name from left to right, likewise; the option has a letter, too, whose
value may stand behind it at once or behind an equals sign. -/
def filtersIn : List String → List String
  | [] => []
  | argument :: rest =>
    match argument.toList with
    | ['-', '-'] => []
    | ['-', '-', 'f', 'i', 'l', 't', 'e', 'r'] | ['-', 'f'] => rest.head?.toList ++ filtersIn rest
    | '-' :: '-' :: 'f' :: 'i' :: 'l' :: 't' :: 'e' :: 'r' :: '=' :: value =>
      String.ofList value :: filtersIn rest
    | '-' :: 'f' :: '=' :: value => String.ofList value :: filtersIn rest
    | '-' :: 'f' :: value => String.ofList value :: filtersIn rest
    | _ => filtersIn rest

/-- The arguments in front of the separator. -/
def beforeSeparator (arguments : List String) : List String :=
  arguments.takeWhile (· ≠ "--")

/-- The words of the options that are followed by nothing. -/
def flagWords : List String :=
  ["no-color", "force", "count"]

/-- The operands among arguments from left to right, if the first argument is the value of an option
or if it is not. -/
def operandsFrom : Bool → List String → List String
  | _, [] => []
  | true, _ :: rest => operandsFrom false rest
  | false, argument :: rest =>
    match argument.toList with
    | ['-', '-'] => rest
    | '-' :: '-' :: word =>
      operandsFrom (!word.contains '=' && !flagWords.contains (String.ofList word)) rest
    | ['-', _] => operandsFrom true rest
    | '-' :: _ :: _ => operandsFrom false rest
    | _ => argument :: operandsFrom false rest

/-- The operands among arguments from left to right: all that is behind the separator, and in front of
it what is neither an option nor the value of one. -/
def operandsIn (arguments : List String) : List String :=
  operandsFrom false arguments

/-- The identifiers of the records that a task is about. -/
def Task.ids : Task → List String
  | find _ _ | pipelines _ => []
  | get target _ | set target _ | delete target _ | history target _ _ => target.ids

/-- Behind all characters that are not a certain one there is nothing, or this one. -/
theorem dropWhile_ne_cases (cs : List Char) (c : Char) :
    cs.dropWhile (· ≠ c) = [] ∨ ∃ behind, cs.dropWhile (· ≠ c) = c :: behind := by
  induction cs with
  | nil => exact .inl rfl
  | cons d cs ih =>
    by_cases h : d = c
    · exact .inr ⟨cs, by simp [h]⟩
    · simpa [h] using ih

namespace OptionName

/-- Whether the reading goes on behind an option with this text attached to it. -/
def Takes (name : OptionName) (attached : Option String) : Prop :=
  (∀ refusal, name.shape ≠ .final refusal) ∧ (name.shape = .flag → attached = none)

/-- What an option is given with: nothing for a flag, or else the text that is attached to it or the
next argument. -/
def given (name : OptionName) (attached : Option String) (rest : List String) : List String :=
  if name.shape = .flag then [""] else (attached.or rest.head?).toList

/-- A flag is given without a value. -/
theorem given_of_flag {name : OptionName} (h : name.shape = .flag) (attached : Option String)
    (rest : List String) : name.given attached rest = [""] :=
  if_pos h

theorem given_some {name : OptionName} {value : String} (h : name.Takes (some value))
    (rest : List String) : name.given (some value) rest = [value] :=
  if_neg fun hflag => by cases h.2 hflag

theorem given_none_cons {name : OptionName} (h : name.shape ≠ .flag) (value : String)
    (rest : List String) : name.given none (value :: rest) = [value] :=
  if_neg h

/-- No two options have the same word. -/
theorem word_injective : Function.Injective word := by
  intro a b h
  have hread : ∀ name : OptionName,
      [config, serverUrl, token, database, account, logDirectory, logLevel, noColor, id, filter, force,
        count, help, version].find? (fun known => known.word = name.word) = some name := by
    intro name
    cases name <;> rfl
  have ha := hread a
  rw [h, hread b] at ha
  exact (Option.some.inj ha).symm

/-- A word is not empty, and no equals sign is in it. -/
theorem word_ne_nil (name : OptionName) : name.word.toList ≠ [] ∧ '=' ∉ name.word.toList := by
  cases name <;> decide

/-- No letter is a dash, and flags have none. -/
theorem letter_ne_dash {name : OptionName} {l : Char} (h : name.letter? = some l) :
    l ≠ '-' ∧ name.shape ≠ .flag := by
  cases name <;> cases h <;> decide

end OptionName

/-! ## Forms of arguments -/

namespace ArgumentForm

variable {known : List OptionName} {argument : String} {rest : List String}

/-- How an argument names an option, with the text that is attached to it. -/
inductive Names (argument : String) (name : OptionName) : Option String → Prop
  /-- Two dashes and the word of the option. -/
  | word (hchars : argument.toList = '-' :: '-' :: name.word.toList) : Names argument name none
  /-- The same with a text behind an equals sign. -/
  | wordWith {text : List Char}
      (hchars : argument.toList = '-' :: '-' :: (name.word.toList ++ '=' :: text)) :
    Names argument name (some (String.ofList text))
  /-- One dash and the letter of the option. -/
  | letter {l : Char} (hletter : name.letter? = some l) (hchars : argument.toList = ['-', l]) :
    Names argument name none
  /-- The same with a text behind the letter. -/
  | letterWith {l c : Char} {text : List Char} (hletter : name.letter? = some l) (hequals : c ≠ '=')
      (hchars : argument.toList = '-' :: l :: c :: text) :
    Names argument name (some (String.ofList (c :: text)))
  /-- The same with a text behind an equals sign. -/
  | letterEquals {l : Char} {text : List Char} (hletter : name.letter? = some l)
      (hchars : argument.toList = '-' :: l :: '=' :: text) :
    Names argument name (some (String.ofList text))
  /-- The letter of an option that ends the reading, whatever is behind it. -/
  | final {refusal : Refusal} (hshape : name.shape = .final refusal) : Names argument name none

/-- How an argument of a form is written. -/
inductive Written (known : List OptionName) (argument : String) : ArgumentForm → Prop
  /-- Two dashes and nothing else. -/
  | separator (hchars : argument.toList = ['-', '-']) : Written known argument .separator
  /-- A known option is named. -/
  | option {name : OptionName} {attached : Option String} (hknown : name ∈ known)
      (hnames : Names argument name attached) : Written known argument (.option name attached)
  /-- A dash in front, and no known option behind it. -/
  | unknown : Written known argument .unknown
  /-- No dash in front, or nothing behind it. -/
  | operand (hchars : ∀ c text, argument.toList ≠ '-' :: c :: text) : Written known argument .operand

/-- The program sorts every argument into the form in which it is written. -/
theorem written_of (known : List OptionName) (argument : String) :
    Written known argument (of known argument) := by
  unfold of
  split
  case h_1 hchars => exact .separator hchars
  case h_2 body _ hchars =>
    unfold ofWord
    dsimp only
    split
    case h_1 name hname =>
      have hfound := List.find?_some hname
      have hword : name.word.toList = body.takeWhile (· ≠ '=') := by
        rw [of_decide_eq_true hfound, String.toList_ofList]
      have hsplit := List.takeWhile_append_dropWhile (p := (· ≠ '=')) (l := body)
      rw [← hword] at hsplit
      refine .option (List.mem_of_find?_eq_some hname) ?_
      rcases dropWhile_ne_cases body '=' with hdrop | ⟨text, hdrop⟩
      · rw [hdrop, List.append_nil] at hsplit
        rw [hdrop]
        exact .word (hchars.trans (by rw [hsplit]))
      · rw [hdrop] at hsplit
        rw [hdrop]
        exact .wordWith (hchars.trans (by rw [hsplit]))
    case h_2 => exact .unknown
  case h_3 l more _ _ hchars =>
    unfold ofLetter
    split
    case h_1 => exact .unknown
    case h_2 name hname =>
      have hfound := List.find?_some hname
      have hletter : name.letter? = some l := of_decide_eq_true hfound
      have hknown := List.mem_of_find?_eq_some hname
      split
      case h_1 hshape _ => exact .option hknown (.final hshape)
      case h_2 => exact .option hknown (.letter hletter hchars)
      case h_3 => exact .option hknown (.letterEquals hletter hchars)
      case h_4 more _ _ hnil hequals _ _ =>
        match more, hnil, hequals, hchars with
        | [], hnil, _, _ => exact absurd rfl hnil
        | c :: text, _, hequals, hchars =>
          refine .option hknown (.letterWith hletter (fun heq => ?_) hchars)
          exact hequals text (heq ▸ rfl)
  case h_4 hseparator hword hletter =>
    refine .operand fun c text hchars => ?_
    by_cases hdash : c = '-'
    · subst hdash
      exact hword text hchars
    · exact hletter c text hchars

section

variable {known : List OptionName} {argument : String}

/-- The separator is two dashes and nothing else. -/
theorem toList_of_separator (h : of known argument = .separator) : argument.toList = ['-', '-'] := by
  have hwritten := written_of known argument
  rw [h] at hwritten
  cases hwritten with
  | separator hchars => exact hchars

theorem toList_of_operand (h : of known argument = .operand) :
    ∀ c text, argument.toList ≠ '-' :: c :: text := by
  have hwritten := written_of known argument
  rw [h] at hwritten
  cases hwritten with
  | operand hchars => exact hchars

/-- Only a known option is named. -/
theorem names_of_option {name : OptionName} {attached : Option String}
    (h : of known argument = .option name attached) : name ∈ known ∧ Names argument name attached := by
  have hwritten := written_of known argument
  rw [h] at hwritten
  cases hwritten with
  | option hknown hnames => exact ⟨hknown, hnames⟩

end

/-! ## Scans for options -/

/-- Whether a scan of arguments lists what an option is given with. -/
structure Lists (asked : OptionName) (scan : List String → List String) : Prop where
  /-- Nothing is listed behind the last argument. -/
  nil : scan [] = []
  /-- Nothing is listed behind the separator. -/
  separator : ∀ {argument}, argument.toList = ['-', '-'] → ∀ rest, scan (argument :: rest) = []
  /-- An operand is passed over. -/
  operand : ∀ {argument : String}, (∀ c text, argument.toList ≠ '-' :: c :: text) →
    ∀ rest, scan (argument :: rest) = scan rest
  /-- Of all options the one is listed. -/
  option : ∀ {argument name attached}, Names argument name attached → name.Takes attached →
    ∀ rest, scan (argument :: rest) =
      (if name = asked then name.given attached rest else []) ++ scan rest

/-- The scan for identifiers lists the values of their option. -/
theorem lists_idsIn : Lists .id idsIn where
  nil := rfl
  separator h _ := by simp [idsIn, h]
  operand h _ := by
    rw [idsIn]
    split
    case h_1 hchars => exact absurd hchars (h _ _)
    case h_2 hchars => exact absurd hchars (h _ _)
    case h_3 hchars => exact absurd hchars (h _ _)
    case h_4 => rfl
  option := by
    intro argument name attached h htakes rest
    rw [idsIn]
    cases h with
    | word hchars | wordWith hchars =>
      rw [hchars]
      cases name <;> rfl
    | letter hletter hchars | letterWith hletter hequals hchars | letterEquals hletter hchars =>
      rw [hchars]
      cases name <;> cases hletter <;> rfl
    | final hshape => exact absurd hshape (htakes.1 _)

theorem lists_filtersIn : Lists .filter filtersIn where
  nil := rfl
  separator h _ := by simp [filtersIn, h]
  operand h _ := by
    rw [filtersIn]
    split
    case h_7 => rfl
    all_goals exact absurd ‹_› (h _ _)
  option := by
    intro argument name attached h htakes rest
    rw [filtersIn]
    cases h with
    | word hchars | wordWith hchars =>
      rw [hchars]
      cases name <;> rfl
    | letter hletter hchars | letterEquals hletter hchars =>
      rw [hchars]
      cases name <;> cases hletter <;> rfl
    | letterWith hletter hequals hchars =>
      rw [hchars]
      cases name <;> cases hletter <;> simp [hequals, OptionName.given, OptionName.shape]
    | final hshape => exact absurd hshape (htakes.1 _)

/-- What names an option is not the separator. -/
theorem Names.ne_separator {argument : String} {name : OptionName} {attached : Option String}
    (h : Names argument name attached) (htakes : name.Takes attached) :
    argument.toList ≠ ['-', '-'] := by
  cases h with
  | word hchars => simpa [hchars] using name.word_ne_nil.1
  | wordWith hchars => simp [hchars]
  | letter hletter hchars => simpa [hchars] using (OptionName.letter_ne_dash hletter).1
  | letterWith _ _ hchars | letterEquals _ hchars => simp [hchars]
  | final hshape => exact absurd hshape (htakes.1 _)

/-- A flag is its word behind two dashes. -/
theorem eq_flag_iff {argument : String} {name : OptionName} :
    argument = "--" ++ name.word ↔ argument.toList = '-' :: '-' :: name.word.toList := by
  rw [← String.toList_inj, String.toList_append]
  rfl

/-- A flag is named by its word alone. -/
theorem Names.eq_flag_iff {argument : String} {name asked : OptionName} {attached : Option String}
    (h : Names argument name attached) (htakes : name.Takes attached) (hshape : asked.shape = .flag) :
    argument = "--" ++ asked.word ↔ name = asked := by
  rw [ArgumentForm.eq_flag_iff]
  constructor
  · intro hflag
    cases h with
    | word hchars =>
      refine OptionName.word_injective (String.toList_inj.mp ?_)
      simpa using hchars.symm.trans hflag
    | wordWith hchars =>
      have hword := (List.cons.inj (List.cons.inj (hchars.symm.trans hflag)).2).2
      have hmem : '=' ∈ asked.word.toList := hword ▸ List.mem_append_right _ List.mem_cons_self
      exact absurd hmem asked.word_ne_nil.2
    | letter hletter hchars | letterWith hletter _ hchars | letterEquals hletter hchars =>
      have hdash := (List.cons.inj (List.cons.inj (hchars.symm.trans hflag)).2).1
      exact absurd hdash (OptionName.letter_ne_dash hletter).1
    | final hname => exact absurd hname (htakes.1 _)
  · rintro rfl
    cases h with
    | word hchars => exact hchars
    | wordWith => cases htakes.2 hshape
    | letter hletter | letterWith hletter | letterEquals hletter =>
      exact absurd hshape (OptionName.letter_ne_dash hletter).2
    | final hname => exact absurd hname (htakes.1 _)

/-- Every argument but the separator counts if it is the flag. -/
theorem filter_beforeSeparator_cons {argument : String} (h : argument.toList ≠ ['-', '-'])
    (flag : String) (rest : List String) :
    (beforeSeparator (argument :: rest)).filter (· = flag) =
      (if argument = flag then [flag] else []) ++ (beforeSeparator rest).filter (· = flag) := by
  have hne : argument ≠ "--" := fun heq => h (heq ▸ rfl)
  by_cases hflag : argument = flag
  · subst hflag
    simp [beforeSeparator, hne]
  · simp [beforeSeparator, hne, hflag]

/-- A flag is given as often as its word stands in front of the separator. -/
theorem lists_flag {asked : OptionName} (hshape : asked.shape = .flag) :
    Lists asked fun arguments =>
      ((beforeSeparator arguments).filter (· = "--" ++ asked.word)).map fun _ => "" where
  nil := rfl
  separator := by
    intro argument h rest
    obtain rfl : argument = "--" := String.toList_inj.mp (h.trans rfl)
    rfl
  operand h rest := by
    rw [filter_beforeSeparator_cons (h _ _), if_neg fun heq => h _ _ (eq_flag_iff.mp heq)]
    rfl
  option := by
    intro argument name attached h htakes rest
    rw [filter_beforeSeparator_cons (h.ne_separator htakes)]
    by_cases hname : name = asked
    · rw [if_pos ((h.eq_flag_iff htakes hshape).mpr hname), if_pos hname, hname,
        OptionName.given_of_flag hshape]
      rfl
    · rw [if_neg fun heq => hname ((h.eq_flag_iff htakes hshape).mp heq), if_neg hname]
      rfl

/-! ## Operands -/

/-- Behind the separator everything is an operand. -/
theorem operandsIn_of_separator {argument : String} (h : argument.toList = ['-', '-'])
    (rest : List String) : operandsIn (argument :: rest) = rest := by
  simp [operandsIn, operandsFrom, h]

theorem operandsIn_of_operand {argument : String} (h : ∀ c text, argument.toList ≠ '-' :: c :: text)
    (rest : List String) : operandsIn (argument :: rest) = argument :: operandsIn rest := by
  rw [operandsIn, operandsFrom]
  split
  case h_5 => rfl
  all_goals exact absurd ‹_› (h _ _)

/-- Behind an option the next argument is no operand if it is the value of the option. -/
theorem operandsIn_of_names {argument : String} {name : OptionName} {attached : Option String}
    (h : Names argument name attached) (htakes : name.Takes attached) (rest : List String) :
    operandsIn (argument :: rest) =
      operandsFrom (decide (name.shape ≠ .flag) && attached.isNone) rest := by
  rw [operandsIn, operandsFrom]
  cases h with
  | word hchars | wordWith hchars =>
    rw [hchars]
    cases name <;> rfl
  | letter hletter hchars | letterWith hletter hequals hchars | letterEquals hletter hchars =>
    rw [hchars]
    cases name <;> cases hletter <;> rfl
  | final hshape => exact absurd hshape (htakes.1 _)

end ArgumentForm

open ArgumentForm (Names Lists)

namespace Given

/-! ## Ways to read -/

/-- The ways in which arguments are read. -/
inductive Reading (known : List OptionName) (toEnd : Bool) :
    Given → List String → Given → List String → Prop
  /-- Nothing is left. -/
  | done (g : Given) : Reading known toEnd g [] g []
  /-- The part ends in front of an operand. -/
  | stop (g : Given) {argument : String} {rest : List String} (hend : toEnd = false)
      (hform : ∀ c text, argument.toList ≠ '-' :: c :: text) :
    Reading known toEnd g (argument :: rest) g (argument :: rest)
  /-- An operand is taken in. -/
  | operand {g g' : Given} {argument : String} {rest left : List String} (hend : toEnd = true)
      (hform : ∀ c text, argument.toList ≠ '-' :: c :: text)
      (h : Reading known toEnd (g.addOperand argument) rest g' left) :
    Reading known toEnd g (argument :: rest) g' left
  /-- Everything behind the separator is an operand. -/
  | separator (g : Given) {argument : String} {rest : List String}
      (hform : argument.toList = ['-', '-']) :
    Reading known toEnd g (argument :: rest) { g with operands := g.operands ++ rest } []
  /-- A flag is taken in. -/
  | flag {g g₁ g' : Given} {argument : String} {rest left : List String} {name : OptionName}
      (hknown : name ∈ known) (hnames : Names argument name none) (htakes : name.Takes none)
      (hflag : name.shape = .flag) (hadd : g.addOption name "" = .ok g₁)
      (h : Reading known toEnd g₁ rest g' left) : Reading known toEnd g (argument :: rest) g' left
  /-- An option is taken in with the value that is attached to it. -/
  | attached {g g₁ g' : Given} {argument value : String} {rest left : List String}
      {name : OptionName} (hknown : name ∈ known) (hnames : Names argument name (some value))
      (htakes : name.Takes (some value)) (hadd : g.addOption name value = .ok g₁)
      (h : Reading known toEnd g₁ rest g' left) : Reading known toEnd g (argument :: rest) g' left
  /-- An option is taken in with the next argument as its value. -/
  | next {g g₁ g' : Given} {argument value : String} {rest left : List String} {name : OptionName}
      (hknown : name ∈ known) (hnames : Names argument name none) (htakes : name.Takes none)
      (hflag : name.shape ≠ .flag) (hvalue : ∀ c text, value.toList ≠ '-' :: c :: text)
      (hadd : g.addOption name value = .ok g₁) (h : Reading known toEnd g₁ rest g' left) :
    Reading known toEnd g (argument :: value :: rest) g' left

variable {known : List OptionName} {toEnd : Bool} {g g' : Given} {arguments left : List String}

/-- What is read is read in one of these ways. -/
theorem reading_of_read (h : g.read known toEnd arguments = .ok (g', left)) :
    Reading known toEnd g arguments g' left := by
  revert h
  fun_induction Given.read known toEnd g arguments <;> intro h
  case case1 =>
    cases h
    exact .done _
  case case3 hform hend ih => exact .operand hend (ArgumentForm.toList_of_operand hform) (ih h)
  case case4 hform hend =>
    cases h
    exact .stop _ (Bool.eq_false_iff.mpr hend) (ArgumentForm.toList_of_operand hform)
  case case5 hform _ =>
    cases h
    exact .separator _ (ArgumentForm.toList_of_separator hform)
  case case10 hshape hform ih =>
    obtain ⟨g₁, hadd, h⟩ := bind_eq_ok_iff.mp h
    obtain ⟨hknown, hnames⟩ := ArgumentForm.names_of_option hform
    refine .flag hknown hnames ⟨fun refusal hfinal => ?_, fun _ => rfl⟩ hshape hadd (ih g₁ h)
    cases hshape.symm.trans hfinal
  case case11 hfinal hflag hform ih =>
    obtain ⟨g₁, hadd, h⟩ := bind_eq_ok_iff.mp h
    obtain ⟨hknown, hnames⟩ := ArgumentForm.names_of_option hform
    exact .attached hknown hnames ⟨hfinal, fun hshape => absurd hshape hflag⟩ hadd (ih g₁ h)
  case case12 hvalue hfinal hflag hform ih =>
    obtain ⟨g₁, hadd, h⟩ := bind_eq_ok_iff.mp h
    obtain ⟨hknown, hnames⟩ := ArgumentForm.names_of_option hform
    exact .next hknown hnames ⟨hfinal, fun _ => rfl⟩ hflag (ArgumentForm.toList_of_operand hvalue) hadd
      (ih g₁ h)
  all_goals cases h

/-! ## What is read -/

/-- An option that is read is added to the values of its own name. -/
theorem values_addOption {name asked : OptionName} {value : String} {g₁ : Given}
    (h : g.addOption name value = .ok g₁) :
    g₁.values asked = g.values asked ++ (if name = asked then [value] else []) := by
  unfold addOption at h
  split at h
  · cases h
  · cases h
    by_cases hname : name = asked
    · simp [values, hname]
    · simp [values, hname]

theorem operands_addOption {name : OptionName} {value : String} {g₁ : Given}
    (h : g.addOption name value = .ok g₁) : g₁.operands = g.operands := by
  unfold addOption at h
  split at h
  · cases h
  · cases h
    rfl

namespace Reading

/-- The values of an option that are read and those that a scan lists in what is left are those that
were there and those that the scan lists in the arguments. -/
theorem values_eq {asked : OptionName} {scan : List String → List String}
    (h : Reading known toEnd g arguments g' left) (hscan : Lists asked scan) :
    g'.values asked ++ scan left = g.values asked ++ scan arguments := by
  induction h with
  | done => rfl
  | stop => rfl
  | operand _ hform _ ih =>
    rw [ih, hscan.operand hform]
    rfl
  | separator _ hform =>
    rw [hscan.separator hform, hscan.nil]
    rfl
  | flag _ hnames htakes hflag hadd _ ih =>
    rw [ih, values_addOption hadd, hscan.option hnames htakes, List.append_assoc,
      OptionName.given_of_flag hflag]
  | attached _ hnames htakes hadd _ ih =>
    rw [ih, values_addOption hadd, hscan.option hnames htakes, List.append_assoc,
      OptionName.given_some htakes]
  | next _ hnames htakes hflag hvalue hadd _ ih =>
    rw [ih, values_addOption hadd, hscan.option hnames htakes, hscan.operand hvalue, List.append_assoc,
      OptionName.given_none_cons hflag]

/-- The operands that are read and those that are left are those that were there and those among the
arguments. -/
theorem operands_eq (h : Reading known toEnd g arguments g' left) :
    g'.operands ++ operandsIn left = g.operands ++ operandsIn arguments := by
  induction h with
  | done => rfl
  | stop => rfl
  | operand _ hform _ ih =>
    rw [ih, ArgumentForm.operandsIn_of_operand hform, addOperand, List.append_assoc]
    rfl
  | separator _ hform =>
    rw [ArgumentForm.operandsIn_of_separator hform]
    exact List.append_nil _
  | flag _ hnames htakes hflag hadd _ ih =>
    rw [ih, operands_addOption hadd, ArgumentForm.operandsIn_of_names hnames htakes, hflag]
    rfl
  | attached _ hnames htakes hadd _ ih =>
    rw [ih, operands_addOption hadd, ArgumentForm.operandsIn_of_names hnames htakes, Option.isNone_some,
      Bool.and_false]
    rfl
  | next _ hnames htakes hflag _ hadd _ ih =>
    rw [ih, operands_addOption hadd, ArgumentForm.operandsIn_of_names hnames htakes, decide_eq_true hflag]
    rfl

/-- A part that ends in front of an operand has no operands. -/
theorem operands_of_stop (h : Reading known toEnd g arguments g' left) (hend : toEnd = false)
    (hleft : left ≠ []) : g'.operands = g.operands := by
  induction h with
  | done => rfl
  | stop => rfl
  | operand htoEnd => cases hend.symm.trans htoEnd
  | separator => exact absurd rfl hleft
  | flag _ _ _ _ hadd _ ih | attached _ _ _ hadd _ ih | next _ _ _ _ _ hadd _ ih =>
    rw [ih hleft, operands_addOption hadd]

/-- Only options that are known are taken in. -/
theorem values_of_not_mem {name : OptionName} (h : Reading known toEnd g arguments g' left)
    (hname : name ∉ known) : g'.values name = g.values name := by
  have hkept : ∀ {g g₁ : Given} {taken value}, taken ∈ known → g.addOption taken value = .ok g₁ →
      g₁.values name = g.values name := by
    intro g g₁ taken value hknown hadd
    have hne : taken ≠ name := by
      rintro rfl
      exact hname hknown
    rw [values_addOption hadd, if_neg hne, List.append_nil]
  induction h with
  | done => rfl
  | stop => rfl
  | operand _ _ _ ih => rw [ih]; rfl
  | separator => rfl
  | flag hknown _ _ _ hadd _ ih | attached hknown _ _ hadd _ ih | next hknown _ _ _ _ hadd _ ih =>
    rw [ih, hkept hknown hadd]

/-- An option that is no list is taken in once. -/
theorem length_values_le {name : OptionName} (h : Reading known toEnd g arguments g' left)
    (hname : name.shape ≠ .list) (hg : (g.values name).length ≤ 1) : (g'.values name).length ≤ 1 := by
  have hkept : ∀ {g g₁ : Given} {taken value}, g.addOption taken value = .ok g₁ →
      (g.values name).length ≤ 1 → (g₁.values name).length ≤ 1 := by
    intro g g₁ taken value hadd hg
    rw [values_addOption hadd]
    by_cases htaken : taken = name
    · subst htaken
      have hnone : g.values taken = [] := by
        unfold addOption at hadd
        split at hadd
        · cases hadd
        · rename_i hno
          by_contra hne
          exact hno (.inl ⟨hname, by simpa [has, value?, ← List.isSome_head?] using hne⟩)
      rw [hnone, if_pos rfl]
      exact Nat.le_refl 1
    · rw [if_neg htaken, List.append_nil]
      exact hg
  induction h with
  | done => exact hg
  | stop => exact hg
  | operand _ _ _ ih => exact ih hg
  | separator => exact hg
  | flag _ _ _ _ hadd _ ih | attached _ _ _ hadd _ ih | next _ _ _ _ _ hadd _ ih =>
    exact ih (hkept hadd hg)

/-- What is read to the end leaves nothing. -/
theorem eq_nil (h : Reading known toEnd g arguments g' left) (hend : toEnd = true) : left = [] := by
  induction h with
  | done => rfl
  | stop _ hstop => cases hend.symm.trans hstop
  | operand _ _ _ ih => exact ih
  | separator => rfl
  | flag _ _ _ _ _ _ ih => exact ih
  | attached _ _ _ _ _ ih => exact ih
  | next _ _ _ _ _ _ _ ih => exact ih

end Reading

/-- A flag is given if some value is listed for it. -/
theorem has_iff {name : OptionName} : g.has name = true ↔ g.values name ≠ [] := by
  rw [has, value?, List.isSome_head?]

end Given

/-! ## Commands -/

/-- What arguments say about a command. The first operand is its word and the second one its table, if
it has one; the fields or assignments are the other operands, in their order. A filter is the value of
its option, and a flag is set if it stands in front of the separator. -/
inductive Command.WrittenIn (arguments : List String) : Command → Prop
  /-- A search has one filter. -/
  | find {table filter : String} (hoperands : operandsIn arguments = ["find", table])
      (hfilters : filtersIn arguments = [filter]) : WrittenIn arguments (.task (.find table filter))
  /-- The fields that are read are behind the table. -/
  | get {target : Target} {fields : List String}
      (hoperands : operandsIn arguments = "get" :: target.table :: fields) (hfields : fields ≠ []) :
    WrittenIn arguments (.task (.get target fields))
  /-- The assignments are behind the table. -/
  | set {target : Target} {assignments : List String}
      (hoperands : operandsIn arguments = "set" :: target.table :: assignments)
      (hassignments : assignments ≠ []) : WrittenIn arguments (.task (.set target assignments))
  /-- A deletion can be forced. -/
  | delete {target : Target} {force : Bool} (hoperands : operandsIn arguments = ["delete", target.table])
      (hforce : force = true ↔ "--force" ∈ beforeSeparator arguments) :
    WrittenIn arguments (.task (.delete target force))
  /-- A history has a filter or none, and can be counted. -/
  | history {target : Target} {filter? : Option String} {count : Bool}
      (hoperands : operandsIn arguments = ["history", target.table])
      (hfilters : filtersIn arguments = filter?.toList)
      (hcount : count = true ↔ "--count" ∈ beforeSeparator arguments) :
    WrittenIn arguments (.task (.history target filter? count))
  /-- The pipelines are those of the table. -/
  | pipelines {table : String} (hoperands : operandsIn arguments = ["pipelines", table]) :
    WrittenIn arguments (.task (.pipelines table))
  /-- The version has no table. -/
  | version (hoperands : operandsIn arguments = ["version"]) : WrittenIn arguments .version

namespace Verb

variable {verb : Verb} {g : Given} {arguments : List String}

/-- A command is about the records that are named behind its name. -/
theorem ids_of_command? {task : Task} (h : verb.command? g = some (.task task))
    (hid : .id ∉ verb.options → g.values .id = []) : task.ids = g.values .id := by
  unfold command? at h
  dsimp only at h
  split at h
  case h_1 =>
    obtain ⟨filter, -, htask⟩ := Option.map_eq_some_iff.mp h
    cases htask
    exact (hid (by decide)).symm
  case h_6 =>
    cases h
    exact (hid (by decide)).symm
  case h_7 => cases h
  case h_8 => cases h
  -- the others have a target, which is refused without identifiers
  all_goals
    obtain ⟨target, htarget, htask⟩ := Option.map_eq_some_iff.mp h
    split at htarget
    · cases htarget
    · cases htarget
      cases htask
      rfl

/-- A command is written in arguments that give its word and then what stands behind it. -/
theorem writtenIn_of_command? {command : Command} (h : verb.command? g = some command)
    (hoperands : operandsIn arguments = verb.word :: g.operands)
    (hfilters : filtersIn arguments = g.values .filter) (honce : (g.values .filter).length ≤ 1)
    (hforce : g.has .force = true ↔ "--force" ∈ beforeSeparator arguments)
    (hcount : g.has .count = true ↔ "--count" ∈ beforeSeparator arguments) :
    command.WrittenIn arguments := by
  have hfilter : filtersIn arguments = (g.value? .filter).toList := by
    rw [hfilters, Given.value?]
    match g.values .filter, honce with
    | [], _ => rfl
    | [_], _ => rfl
  have htarget : ∀ {table target}, (if (g.values .id).isEmpty then none else
      some (⟨table, g.values .id⟩ : Target)) = some target → table = target.table := by
    intro table target htarget
    split at htarget
    · cases htarget
    · cases htarget
      rfl
  unfold command? at h
  dsimp only at h
  split at h
  case h_1 table heq =>
    obtain ⟨filter, hvalue, rfl⟩ := Option.map_eq_some_iff.mp h
    rw [heq] at hoperands
    rw [hvalue] at hfilter
    exact .find hoperands hfilter
  case h_2 heq =>
    obtain ⟨target, hids, rfl⟩ := Option.map_eq_some_iff.mp h
    rw [heq, htarget hids] at hoperands
    exact .get hoperands (List.cons_ne_nil _ _)
  case h_3 heq =>
    obtain ⟨target, hids, rfl⟩ := Option.map_eq_some_iff.mp h
    rw [heq, htarget hids] at hoperands
    exact .set hoperands (List.cons_ne_nil _ _)
  case h_4 heq =>
    obtain ⟨target, hids, rfl⟩ := Option.map_eq_some_iff.mp h
    rw [heq, htarget hids] at hoperands
    exact .delete hoperands hforce
  case h_5 heq =>
    obtain ⟨target, hids, rfl⟩ := Option.map_eq_some_iff.mp h
    rw [heq, htarget hids] at hoperands
    exact .history hoperands hfilter hcount
  case h_6 heq =>
    cases h
    rw [heq] at hoperands
    exact .pipelines hoperands
  case h_7 heq =>
    cases h
    rw [heq] at hoperands
    exact .version hoperands
  case h_8 => cases h

/-- The word of a command is an operand. -/
theorem word_ne_option (verb : Verb) (c : Char) (text : List Char) :
    verb.word.toList ≠ '-' :: c :: text := by
  cases verb <;> simp [word]

end Verb

/-! ## Whole command lines -/

namespace CommandLine

open Given (Reading)

variable {arguments : List String} {c : CommandLine} {verb : Verb} {behind : Given}

/-- Whether arguments are read up to the word of a command, and from there on to the end with what is
given behind it. -/
def Parts (arguments : List String) (verb : Verb) (behind : Given) : Prop :=
  ∃ before rest,
    Reading (OptionName.common ++ [.version]) false .empty arguments before (verb.word :: rest) ∧
      Reading (verb.options ++ OptionName.common) true .empty rest behind []

/-- A command line that is understood has a word for a command, and its command is that of the part
behind it. -/
theorem exists_parts (h : ofArguments arguments = .ok c) :
    ∃ (verb : Verb) (behind : Given), Parts arguments verb behind ∧
      verb.command? behind = some c.command := by
  unfold ofArguments at h
  obtain ⟨⟨before, left⟩, hbefore, h⟩ := bind_eq_ok_iff.mp h
  have hread := Given.reading_of_read hbefore
  cases left with
  | nil => cases h
  | cons word rest =>
    dsimp only at h
    split at h
    · cases h
    · split at h
      case h_2 => cases h
      case h_1 verb hverb =>
        have hword : verb.word = word := by simpa using List.find?_some hverb
        subst hword
        obtain ⟨⟨behind, left⟩, hbehind, h⟩ := bind_eq_ok_iff.mp h
        have hread' := Given.reading_of_read hbehind
        dsimp only at h
        split at h
        case h_2 => cases h
        case h_1 command hcommand =>
          cases h
          rw [hread'.eq_nil rfl] at hread'
          exact ⟨verb, behind, ⟨before, rest, hread, hread'⟩, hcommand⟩

namespace Parts

/-- An option that counts only behind the word of a command is given what a scan lists. -/
theorem values_eq (h : Parts arguments verb behind) {asked : OptionName}
    {scan : List String → List String} (hscan : ArgumentForm.Lists asked scan)
    (hasked : asked ∉ OptionName.common ++ [.version]) : behind.values asked = scan arguments := by
  obtain ⟨before, rest, hbefore, hbehind⟩ := h
  have hfront := hbefore.values_eq hscan
  have hback := hbehind.values_eq hscan
  rw [hbefore.values_of_not_mem hasked, hscan.operand verb.word_ne_option] at hfront
  rw [hscan.nil, List.append_nil] at hback
  exact hback.trans hfront

/-- The operands are the word of the command and what is behind it. -/
theorem operands_eq (h : Parts arguments verb behind) :
    operandsIn arguments = verb.word :: behind.operands := by
  obtain ⟨before, rest, hbefore, hbehind⟩ := h
  have hfront := hbefore.operands_eq
  have hback := hbehind.operands_eq
  rw [hbefore.operands_of_stop rfl (List.cons_ne_nil _ _),
    ArgumentForm.operandsIn_of_operand verb.word_ne_option] at hfront
  rw [show operandsIn [] = [] from rfl, List.append_nil] at hback
  rw [hback]
  exact hfront.symm

/-- A flag of a command is given if it stands in front of the separator. -/
theorem has_iff (h : Parts arguments verb behind) {name : OptionName} (hshape : name.shape = .flag)
    (hname : name ∉ OptionName.common ++ [.version]) :
    behind.has name = true ↔ "--" ++ name.word ∈ beforeSeparator arguments := by
  rw [Given.has_iff, h.values_eq (ArgumentForm.lists_flag hshape) hname]
  simp

end Parts

/-- The records that a command is about are those that the arguments name, in their order and as often
as they are there. -/
theorem ids_of_ofArguments {task : Task} (h : ofArguments arguments = .ok c)
    (htask : c.command = .task task) : task.ids = idsIn arguments := by
  obtain ⟨verb, behind, hparts, hcommand⟩ := exists_parts h
  rw [htask] at hcommand
  rw [Verb.ids_of_command? hcommand]
  · exact hparts.values_eq ArgumentForm.lists_idsIn (by decide)
  · intro hid
    obtain ⟨before, rest, -, hbehind⟩ := hparts
    refine hbehind.values_of_not_mem ?_
    rw [List.mem_append, not_or]
    exact ⟨hid, by decide⟩

/-- The command is the one that the arguments write: its word, its table, its fields or assignments, its
filter and its flags are in them. -/
theorem writtenIn_of_ofArguments (h : ofArguments arguments = .ok c) :
    c.command.WrittenIn arguments := by
  obtain ⟨verb, behind, hparts, hcommand⟩ := exists_parts h
  have honce : (behind.values .filter).length ≤ 1 := by
    obtain ⟨before, rest, -, hbehind⟩ := hparts
    exact hbehind.length_values_le (by decide) (by decide)
  exact Verb.writtenIn_of_command? hcommand hparts.operands_eq
    (hparts.values_eq ArgumentForm.lists_filtersIn (by decide)).symm honce
    (hparts.has_iff (show OptionName.force.shape = .flag from rfl) (by decide))
    (hparts.has_iff (show OptionName.count.shape = .flag from rfl) (by decide))

end CommandLine

end RemoteTable
