import Mathlib.Data.List.TakeWhile
import RemoteTable.Proofs.Number.Double
import RemoteTable.Proofs.Text.Numeral
import RemoteTable.Proofs.Toml.Strings
import RemoteTable.Toml.Reader

/-!
# Documents of one line for each value

A document whose lines each give a bare name a value, with no name twice, is read as the table of
these values in their order (`ofText?_document`). What a line needs of its value is that the written
value is read up to the end of the line (`Entry`); written texts (`Entry.ofText`) and whole numbers
(`Entry.ofNat`) are.
-/

namespace RemoteTable

namespace Toml

/-- A name with a written value that is read back. -/
structure Entry where
  /-- The name. -/
  name : String
  /-- The value as it is written. -/
  written : List Char
  /-- The value. -/
  value : Value
  /-- There is a name. -/
  name_ne_nil : name.toList ≠ []
  /-- The name needs no quotes. -/
  isKeyChar_of_mem : ∀ c ∈ name.toList, isKeyChar c = true
  /-- The written value begins with no blank. -/
  skipBlanks_written : ∀ more, skipBlanks (written ++ more) = written ++ more
  /-- The written value is read back up to the end of its line. -/
  readValue_written : ∀ fuel depth rest,
    readValue (fuel + 1) depth (written ++ '\n' :: rest) = some (value, '\n' :: rest)

/-- The line of an entry. -/
def Entry.line (e : Entry) : List Char :=
  e.name.toList ++ [' ', '=', ' '] ++ e.written ++ ['\n']

/-- The entry as it is kept while a document is read. -/
def Entry.node (e : Entry) : String × Node :=
  (e.name, .value e.value)

/-- The document with a line for each entry. -/
def document (entries : List Entry) : List Char :=
  entries.flatMap Entry.line

/-! ## Beginnings of lines -/

/-- Only blanks are skipped. -/
theorem skipBlanks_cons {c : Char} (hspace : c ≠ ' ') (htab : c ≠ '\t') (cs : List Char) :
    skipBlanks (c :: cs) = c :: cs := by
  simp [skipBlanks, hspace, htab]

theorem skipBlanks_of_isKeyChar {c : Char} (hc : isKeyChar c = true) (cs : List Char) :
    skipBlanks (c :: cs) = c :: cs :=
  skipBlanks_cons (ne_of_class hc rfl) (ne_of_class hc rfl) cs

/-- A line that begins with a name is not skipped. -/
theorem skipLines_of_isKeyChar {c : Char} (hc : isKeyChar c = true) (fuel : ℕ) (cs : List Char) :
    skipLines fuel (c :: cs) = c :: cs := by
  cases fuel with
  | zero => rfl
  | succ fuel =>
    have hcomment : c ≠ '#' := ne_of_class hc rfl
    have hfeed : c ≠ '\n' := ne_of_class hc rfl
    have hreturn : c ≠ '\r' := ne_of_class hc rfl
    simp [skipLines, skipBlanks_of_isKeyChar hc, skipComment, lineBreak?, hcomment, hfeed, hreturn]

/-- A bare name in front of an equals sign is a key of one part. -/
theorem readKey_name {name : String} (hne : name.toList ≠ [])
    (hname : ∀ c ∈ name.toList, isKeyChar c = true) (fuel : ℕ) (more : List Char) :
    readKey (fuel + 1) (name.toList ++ ' ' :: '=' :: more) = some ([name], '=' :: more) := by
  have hblanks : skipBlanks (name.toList ++ ' ' :: '=' :: more) = name.toList ++ ' ' :: '=' :: more := by
    obtain ⟨c, cs, hcs⟩ := List.exists_cons_of_ne_nil hne
    rw [hcs] at hname ⊢
    exact skipBlanks_of_isKeyChar (hname c List.mem_cons_self) _
  have hspace : ∀ c ∈ (' ' :: '=' :: more).head?, isKeyChar c = false := by
    intro c hc
    obtain rfl : ' ' = c := Option.some.inj hc
    rfl
  obtain ⟨htake, hdrop⟩ := span_append hname hspace
  have hpart : readKeyPart (name.toList ++ ' ' :: '=' :: more) = some (name, ' ' :: '=' :: more) := by
    unfold readKeyPart
    rw [htake, hdrop]
    split
    · contradiction
    · rw [String.ofList_toList]
  rw [readKey, hblanks, hpart]
  rfl

/-! ## Reading entries -/

namespace Draft

variable {d : Draft} {name : String}

/-- A name that a table does not have yet is added at its end. -/
theorem addValue_name (h : d.current.get? name = none) (v : Value) :
    d.addValue [name] v = some { d with current := d.current ++ [(name, .value v)] } := by
  simp [addValue, Nodes.addValue, Nodes.updateAt, h]

end Draft

/-- Behind a value the line ends. -/
theorem endLine?_lineFeed (rest : List Char) : endLine? ('\n' :: rest) = some rest := rfl

/-- The line of an entry, with the lines behind it. -/
theorem Entry.line_append (e : Entry) (rest : List Char) :
    e.line ++ rest = e.name.toList ++ ' ' :: '=' :: ' ' :: (e.written ++ '\n' :: rest) := by
  simp [line]

/-- A line begins with a character of a bare name. -/
theorem Entry.exists_line_eq (e : Entry) (rest : List Char) :
    ∃ c more, e.line ++ rest = c :: more ∧ isKeyChar c = true := by
  obtain ⟨c, cs, hcs⟩ := List.exists_cons_of_ne_nil e.name_ne_nil
  have hc : isKeyChar c = true := by
    refine e.isKeyChar_of_mem c ?_
    rw [hcs]
    exact List.mem_cons_self
  refine ⟨c, cs ++ ' ' :: '=' :: ' ' :: (e.written ++ '\n' :: rest), ?_, hc⟩
  rw [e.line_append, hcs]
  rfl

/-- What a line that begins with a key and a value is read as. -/
theorem readLine_of_key {c : Char} (hc : isKeyChar c = true) {d : Draft} {key : List String}
    {v : Value} {more rest behind : List Char}
    (hkey : readKey (more.length + 1) (c :: more) = some (key, '=' :: rest))
    (hvalue : readValue (2 * rest.length + 2) (depthLimit - 1) (skipBlanks rest) =
      some (v, behind)) :
    readLine d (c :: more) =
      (d.addValue key v).bind fun d => (endLine? behind).bind fun rest => some (d, rest) := by
  have hbracket : c ≠ '[' := ne_of_class hc rfl
  unfold readLine
  split
  · rename_i he
    exact absurd (List.cons.inj he).1 hbracket
  · rename_i he
    exact absurd (List.cons.inj he).1 hbracket
  · rw [List.length_cons, hkey]
    show (readValue (2 * rest.length + 2) (depthLimit - 1) (skipBlanks rest)).bind (fun x =>
      (d.addValue key x.1).bind fun d => (endLine? x.2).bind fun rest => some (d, rest)) = _
    rw [hvalue, Option.bind_some]

/-- The line of an entry adds the entry to a table that does not have its name. -/
theorem Entry.readLine_line (e : Entry) {d : Draft} (h : d.current.get? e.name = none)
    (rest : List Char) :
    readLine d (e.line ++ rest) = some ({ d with current := d.current ++ [e.node] }, rest) := by
  obtain ⟨c, more, hline, hc⟩ := e.exists_line_eq rest
  let body := e.written ++ '\n' :: rest
  have hblank : skipBlanks (' ' :: body) = body := e.skipBlanks_written ('\n' :: rest)
  have hvalue : readValue (2 * (' ' :: body).length + 2) (depthLimit - 1) (skipBlanks (' ' :: body)) =
      some (e.value, '\n' :: rest) := by
    rw [hblank]
    exact e.readValue_written _ _ rest
  have hkey : readKey (more.length + 1) (c :: more) =
      some ([e.name], '=' :: ' ' :: body) := by
    rw [← hline, e.line_append]
    exact readKey_name e.name_ne_nil e.isKeyChar_of_mem more.length _
  rw [hline, readLine_of_key hc hkey hvalue, Draft.addValue_name h, endLine?_lineFeed]
  rfl

/-- An entry of another name does not set a name. -/
theorem get?_append_node {nodes : Nodes} {name : String} {e : Entry} (h : nodes.get? name = none)
    (hne : name ≠ e.name) : (nodes ++ [e.node]).get? name = none := by
  have hlookup : nodes.lookup name = none := h
  have hname : (name == e.name) = false := beq_false_of_ne hne
  rw [Nodes.get?, List.lookup_append, hlookup, Entry.node, List.lookup_cons, hname]
  rfl

/-- A document adds its entries one after the other. -/
theorem readLines_document {entries : List Entry} (hnodup : (entries.map Entry.name).Nodup)
    {d : Draft} (hpath : d.path = []) (hnew : ∀ e ∈ entries, d.current.get? e.name = none)
    {fuel : ℕ} (hfuel : entries.length < fuel) :
    readLines fuel d (document entries) = some (d.current ++ entries.map Entry.node) := by
  obtain ⟨fuel, rfl⟩ : ∃ n, fuel = n + 1 := ⟨fuel - 1, by omega⟩
  induction entries generalizing d fuel with
  | nil =>
    have hfinish : d.finish = some d.current := by rw [Draft.finish, hpath]; rfl
    rw [List.map_nil, List.append_nil, ← hfinish]
    rfl
  | cons e entries ih =>
    obtain ⟨fuel, rfl⟩ : ∃ n, fuel = n + 1 := ⟨fuel - 1, by simp at hfuel; omega⟩
    obtain ⟨c, more, hline, hc⟩ := e.exists_line_eq (document entries)
    have hdocument : document (e :: entries) = e.line ++ document entries := rfl
    have hread := e.readLine_line (hnew e List.mem_cons_self) (document entries)
    rw [List.map_cons, List.nodup_cons] at hnodup
    have hnew' : ∀ x ∈ entries, (d.current ++ [e.node]).get? x.name = none := by
      intro x hx
      refine get?_append_node (hnew x (List.mem_cons_of_mem e hx)) ?_
      intro hname
      exact hnodup.1 (by rw [← hname]; exact List.mem_map_of_mem hx)
    rw [hdocument, readLines, hline, skipLines_of_isKeyChar hc]
    dsimp only
    rw [← hline, hread]
    dsimp only
    have hpath' : ({ d with current := d.current ++ [e.node] } : Draft).path = [] := hpath
    rw [ih hnodup.2 hpath' hnew' _ (by simp at hfuel; omega), List.append_assoc]
    rfl

/-- Every entry takes one character of the document at least, so that the fuel lasts. -/
theorem length_le_length_document (entries : List Entry) :
    entries.length ≤ (document entries).length := by
  induction entries with
  | nil => exact Nat.le_refl 0
  | cons e entries ih =>
    have hdocument : document (e :: entries) = e.line ++ document entries := rfl
    have hline : 0 < e.line.length := List.length_pos_iff.mpr (by simp [Entry.line])
    rw [hdocument, List.length_append, List.length_cons]
    omega

/-- What was read are the values of the entries under their names. -/
theorem freezeMembers_map_node (entries : List Entry) :
    freezeMembers (entries.map Entry.node) = entries.map fun e => (e.name, e.value) := by
  induction entries with
  | nil => rfl
  | cons e entries ih =>
    rw [List.map_cons, List.map_cons, ← ih]
    rfl

/-- A document has no mark in front of its first name. -/
theorem head?_document {c : Char} (hc : isKeyChar c = false) (entries : List Entry) :
    (document entries).head? ≠ some c := by
  cases entries with
  | nil => exact nofun
  | cons e entries =>
    obtain ⟨d, more, hline, hd⟩ := e.exists_line_eq (document entries)
    have hdocument : document (e :: entries) = d :: more := hline
    rw [hdocument]
    exact fun h => ne_of_class hd hc (Option.some_inj.mp h)

/-- A document is read as the values of its lines. -/
theorem ofText?_document {entries : List Entry} (hnodup : (entries.map Entry.name).Nodup) :
    ofText? (String.ofList (document entries)) =
      some (entries.map fun e => (e.name, e.value)) := by
  have hread := readLines_document hnodup (d := .empty) rfl (fun e _ => rfl)
    (Nat.lt_succ_of_le (length_le_length_document entries))
  have hmark := head?_document (c := '\uFEFF') rfl entries
  unfold ofText?
  rw [String.toList_ofList]
  generalize document entries = cs at hread hmark ⊢
  dsimp only
  split
  · exact absurd rfl hmark
  · rw [hread, Option.map_some, ← freezeMembers_map_node]
    rfl

/-! ## Written texts -/

/-- A written text begins with a quote. -/
theorem exists_writeString_eq (cs : List Char) :
    ∃ c more, writeString cs = c :: more ∧ (c = '"' ∨ c = '\'') := by
  unfold writeString
  dsimp only
  split
  · exact ⟨'"', _, rfl, .inl rfl⟩
  split
  · exact ⟨'\'', _, rfl, .inr rfl⟩
  split
  · exact ⟨'"', _, rfl, .inl rfl⟩
  split
  · exact ⟨'\'', _, rfl, .inr rfl⟩
  split
  · exact ⟨'"', _, rfl, .inl rfl⟩
  · exact ⟨'"', _, rfl, .inl rfl⟩

/-- A value that begins with a quote is a text. -/
theorem readValue_quote {c : Char} (hc : c = '"' ∨ c = '\'') (fuel depth : ℕ) (more : List Char) :
    readValue (fuel + 1) depth (c :: more) =
      (readString (c :: more)).map fun (s, rest) => (.string s, rest) := by
  have hbracket : c ≠ '[' := by rcases hc with rfl | rfl <;> decide
  have hbrace : c ≠ '\x7b' := by rcases hc with rfl | rfl <;> decide
  rw [readValue]
  · exact if_pos hc
  · exact hbracket
  · exact hbrace

/-- A name with a text. -/
def Entry.ofText (name : String) (hne : name.toList ≠ [])
    (hname : ∀ c ∈ name.toList, isKeyChar c = true) (text : String) : Entry where
  name := name
  written := writeString text.toList
  value := .string text
  name_ne_nil := hne
  isKeyChar_of_mem := hname
  skipBlanks_written more := by
    obtain ⟨c, tail, hwritten, hc⟩ := exists_writeString_eq text.toList
    rw [hwritten]
    rcases hc with rfl | rfl
    · exact skipBlanks_cons (by decide) (by decide) _
    · exact skipBlanks_cons (by decide) (by decide) _
  readValue_written fuel depth rest := by
    have hread : readString (writeString text.toList ++ '\n' :: rest) =
        some (String.ofList text.toList, '\n' :: rest) := readString_writeString (by simp) (by simp)
    obtain ⟨c, tail, hwritten, hc⟩ := exists_writeString_eq text.toList
    rw [hwritten, List.cons_append] at hread ⊢
    rw [readValue_quote hc, hread, String.ofList_toList]
    rfl

/-! ## Written whole numbers -/

section Digits

variable {cs : List Char}

theorem not_mem_of_isDigit {c : Char} (h : ∀ d ∈ cs, isDigit d = true) (hc : isDigit c = false) :
    c ∉ cs := by
  intro hmem
  rw [h c hmem] at hc
  cases hc

/-- Digits have no sign in front and no letter, so that they are neither a base nor a name. -/
theorem ne_cons_of_isDigit {c : Char} {more : List Char} (h : ∀ d ∈ cs, isDigit d = true)
    (hc : isDigit c = false) : cs ≠ c :: more := by
  rintro rfl
  exact not_mem_of_isDigit h hc List.mem_cons_self

/-- Digits alone are no date. -/
theorem date?_of_isDigit (h : ∀ d ∈ cs, isDigit d = true) : date? cs = none := by
  have hdash : '-' ∉ cs := not_mem_of_isDigit h rfl
  unfold date?
  split
  · simp at hdash
  · rfl

theorem time?_of_isDigit (h : ∀ d ∈ cs, isDigit d = true) : time? cs = none := by
  have hcolon : ':' ∉ cs := not_mem_of_isDigit h rfl
  unfold time?
  split
  · simp at hcolon
  · rfl

theorem moment?_of_isDigit (h : ∀ d ∈ cs, isDigit d = true) : moment? cs = none := by
  rw [moment?, date?_of_isDigit h, time?_of_isDigit h]

/-- Digits without underscores are ungrouped already. -/
theorem ungroupFrom_of_isDigit (h : ∀ d ∈ cs, isDigit d = true) :
    ungroupFrom isDigit true cs = some cs := by
  induction cs with
  | nil => rfl
  | cons c cs ih =>
    rw [List.forall_mem_cons] at h
    rw [ungroupFrom, if_pos h.1, ih h.2]
    rfl

/-- Digits alone have no separators. -/
theorem ungroup_of_isDigit (hne : cs ≠ []) (h : ∀ d ∈ cs, isDigit d = true) :
    ungroup isDigit cs = some cs := by
  obtain ⟨c, cs, rfl⟩ := List.exists_cons_of_ne_nil hne
  rw [List.forall_mem_cons] at h
  rw [ungroup, ungroupFrom, if_pos h.1, ungroupFrom_of_isDigit h.2]
  rfl

/-- Digits without a point and an exponent are no number with a fraction. -/
theorem unsignedFloat?_of_isDigit (h : ∀ d ∈ cs, isDigit d = true) (negative : Bool) :
    unsignedFloat? negative cs = none := by
  have hmark : ∀ d ∈ cs, (!isExponentMark d) = true := by
    intro d hd
    have hlower : d ≠ 'e' := fun he => not_mem_of_isDigit h rfl (he ▸ hd)
    have hupper : d ≠ 'E' := fun he => not_mem_of_isDigit h rfl (he ▸ hd)
    simp [isExponentMark, hlower, hupper]
  have hpoint : ∀ d ∈ cs, (d != '.') = true := by
    intro d hd
    have hd' : d ≠ '.' := fun he => not_mem_of_isDigit h rfl (he ▸ hd)
    simp [hd']
  have htake : cs.takeWhile (fun d => !isExponentMark d) = cs := List.takeWhile_eq_self_iff.mpr hmark
  have hdrop : cs.dropWhile (fun d => !isExponentMark d) = [] := List.dropWhile_eq_nil_iff.mpr hmark
  have hfraction : cs.dropWhile (· != '.') = [] := List.dropWhile_eq_nil_iff.mpr hpoint
  rw [unsignedFloat?, htake, hdrop, hfraction]
  cases wholeDigits? (cs.takeWhile (· != '.')) with
  | none => rfl
  | some whole => rfl

theorem signAndBody_of_isDigit (h : ∀ d ∈ cs, isDigit d = true) :
    Double.signAndBody cs = (false, cs) := by
  unfold Double.signAndBody
  split
  · exact absurd rfl (ne_cons_of_isDigit h rfl)
  · exact absurd rfl (ne_cons_of_isDigit h rfl)
  · rfl

theorem float?_of_isDigit (h : ∀ d ∈ cs, isDigit d = true) : float? cs = none := by
  show (if (Double.signAndBody cs).2 = ['i', 'n', 'f'] then
      some (.float (.infinite (Double.signAndBody cs).1))
    else if (Double.signAndBody cs).2 = ['n', 'a', 'n'] then some (.float .notANumber)
    else unsignedFloat? (Double.signAndBody cs).1 (Double.signAndBody cs).2) = none
  rw [signAndBody_of_isDigit h]
  rw [if_neg (ne_cons_of_isDigit h rfl), if_neg (ne_cons_of_isDigit h rfl)]
  exact unsignedFloat?_of_isDigit h false

/-- Digits are a whole number to the base ten. -/
theorem integer?_of_isDigit (h : ∀ d ∈ cs, isDigit d = true) :
    integer? cs = (wholeDigits? cs).bind fun digits => bounded (valueFrom 0 digits : ℕ) := by
  have hletter : ∀ {c : Char} {more : List Char}, isDigit c = false → cs ≠ '0' :: c :: more := by
    rintro c more hc rfl
    exact not_mem_of_isDigit h hc (List.mem_cons_of_mem _ List.mem_cons_self)
  unfold integer?
  split
  · exact absurd rfl (hletter rfl)
  · exact absurd rfl (hletter rfl)
  · exact absurd rfl (hletter rfl)
  · exact absurd rfl (ne_cons_of_isDigit h rfl)
  · exact absurd rfl (ne_cons_of_isDigit h rfl)
  · rfl

end Digits

/-- The digits of a whole number are read back. -/
theorem wholeDigits?_toDigits (n : ℕ) : wholeDigits? (Nat.toDigits 10 n) = some (Nat.toDigits 10 n) := by
  have hdigits : ∀ d ∈ Nat.toDigits 10 n, isDigit d = true := fun d => isDigit_of_mem_toDigits
  rw [wholeDigits?, ungroup_of_isDigit Nat.toDigits_ne_nil hdigits]
  by_cases hzero : (Nat.toDigits 10 n).head? = some '0'
  · rw [eq_zero_of_head?_toDigits hzero]
    rfl
  · split
    · rename_i he
      rw [Option.some_inj.mp he]
    · rename_i he
      rw [Option.some_inj.mp he] at hzero
      exact absurd rfl hzero
    · rfl

theorem integer?_toDigits {n : ℕ} (hn : n < signedEnd) :
    integer? (Nat.toDigits 10 n) = some (.integer n) := by
  have hdigits : ∀ d ∈ Nat.toDigits 10 n, isDigit d = true := fun d => isDigit_of_mem_toDigits
  have hvalue : valueFrom 0 (Nat.toDigits 10 n) = n :=
    (numeral?_eq_some_iff.mp (numeral?_toDigits 0 n)).2.2
  have hbounds : -(signedEnd : ℤ) ≤ (n : ℤ) ∧ (n : ℤ) < signedEnd := by omega
  rw [integer?_of_isDigit hdigits, wholeDigits?_toDigits, Option.bind_some, hvalue, bounded,
    if_pos hbounds]

theorem wordValue?_toDigits {n : ℕ} (hn : n < signedEnd) :
    wordValue? (Nat.toDigits 10 n) = some (.integer n) := by
  have hdigits : ∀ d ∈ Nat.toDigits 10 n, isDigit d = true := fun d => isDigit_of_mem_toDigits
  rw [wordValue?, if_neg (ne_cons_of_isDigit hdigits rfl), if_neg (ne_cons_of_isDigit hdigits rfl),
    moment?_of_isDigit hdigits, float?_of_isDigit hdigits, integer?_toDigits hn]
  rfl

/-- No word ends at a digit. -/
theorem endsWord_of_isDigit {c : Char} (h : isDigit c = true) : endsWord c = false := by
  rw [← Bool.not_eq_true]
  intro he
  simp only [endsWord, Bool.or_eq_true, beq_iff_eq] at he
  rcases he with ((((((rfl | rfl) | rfl) | rfl) | rfl) | rfl) | rfl) | rfl <;> cases h

/-- A number is read as a word up to the end of its line. -/
theorem readWord_toDigits {n : ℕ} (hn : n < signedEnd) (rest : List Char) :
    readWord (Nat.toDigits 10 n ++ '\n' :: rest) = some (.integer n, '\n' :: rest) := by
  have hdigits : ∀ d ∈ Nat.toDigits 10 n, isDigit d = true := fun d => isDigit_of_mem_toDigits
  have hinside : ∀ d ∈ Nat.toDigits 10 n, (!endsWord d) = true := by
    intro d hd
    rw [endsWord_of_isDigit (hdigits d hd)]
    rfl
  have hfeed : ∀ c ∈ ('\n' :: rest).head?, (!endsWord c) = false := by
    intro c hc
    obtain rfl : '\n' = c := Option.some.inj hc
    rfl
  obtain ⟨htake, hdrop⟩ := span_append hinside hfeed
  rw [readWord, htake, hdrop, date?_of_isDigit hdigits]
  dsimp only
  rw [wordValue?_toDigits hn]
  rfl

/-- A value that begins with a digit is a word. -/
theorem readValue_digit {c : Char} (hc : isDigit c = true) (fuel depth : ℕ) (more : List Char) :
    readValue (fuel + 1) depth (c :: more) = readWord (c :: more) := by
  have hquote : ¬ (c = '"' ∨ c = '\'') := not_or.mpr ⟨ne_of_class hc rfl, ne_of_class hc rfl⟩
  rw [readValue]
  · exact if_neg hquote
  · exact ne_of_class hc rfl
  · exact ne_of_class hc rfl

/-- A name with a whole number. -/
def Entry.ofNat (name : String) (hne : name.toList ≠ [])
    (hname : ∀ c ∈ name.toList, isKeyChar c = true) (n : ℕ) (hn : n < signedEnd) : Entry where
  name := name
  written := Nat.toDigits 10 n
  value := .integer n
  name_ne_nil := hne
  isKeyChar_of_mem := hname
  skipBlanks_written more := by
    obtain ⟨c, cs, hcs, hc⟩ := exists_toDigits_eq n
    rw [hcs]
    exact skipBlanks_cons (ne_of_class hc rfl) (ne_of_class hc rfl) _
  readValue_written fuel depth rest := by
    have hread := readWord_toDigits hn rest
    obtain ⟨c, cs, hcs, hc⟩ := exists_toDigits_eq n
    rw [hcs, List.cons_append] at hread ⊢
    rw [readValue_digit hc, hread]

end Toml

end RemoteTable
