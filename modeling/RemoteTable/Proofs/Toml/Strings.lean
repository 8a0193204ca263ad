import Mathlib.Tactic.ByContra
import RemoteTable.Proofs.Text.Numeral
import RemoteTable.Toml.Text

/-!
# Written strings are read back

A text is written in one of four forms, and each of them is read as the text again
(`readString_writeString`). In double quotes every character stands for itself or is escaped
(`Written`), and either way it is read as one character. On several lines up to two quotes in a row
may stand for themselves: the reader counts them (`behind`) until another character, or the quotes at
the end, decide what they are.
-/

namespace RemoteTable

namespace Toml

/-! ## Characters in double quotes -/

/-- The forms of a character in double quotes. A line feed stands for itself on several lines only. -/
inductive Written (multiline : Bool) (c : Char) : List Char → Prop
  /-- The character itself. -/
  | plain : isPlain c = true → c ≠ '"' → c ≠ '\\' → Written multiline c [c]
  /-- A line feed. -/
  | lineFeed : multiline = true → c = '\n' → Written multiline c ['\n']
  /-- A backslash and a letter. -/
  | letter {d : Char} : unescape? d = some c → Written multiline c ['\\', d]
  /-- A code point below 128 in four hexadecimal digits. -/
  | unit {a b : Char} : c.toNat < 128 → hexValue? a = some (c.toNat / 16) →
    hexValue? b = some (c.toNat % 16) → Written multiline c ['\\', 'u', '0', '0', a, b]

/-- The form of a character that is no quote. -/
def escapeChar (multiline : Bool) (c : Char) : List Char :=
  if c = '\x08' then ['\\', 'b']
  else if c = '\t' then ['\\', 't']
  else if c = '\n' then if multiline then ['\n'] else ['\\', 'n']
  else if c = '\x0c' then ['\\', 'f']
  else if c = '\r' then ['\\', 'r']
  else if c = '\\' then ['\\', '\\']
  else if isPlain c then [c]
  else unitEscape c

/-- A character that is no quote is escaped by itself. -/
theorem escapeBasic_cons_of_ne {c : Char} (hc : c ≠ '"') (multiline : Bool) (run : ℕ)
    (cs : List Char) :
    escapeBasic multiline run (c :: cs) = escapeChar multiline c ++ escapeBasic multiline 0 cs := by
  rw [escapeBasic, if_neg hc]
  rfl

/-- A character that may not stand by itself is a control character. -/
theorem toNat_lt_of_not_isPlain {c : Char} (h : isPlain c = false) : c.toNat < 128 := by
  by_contra hge
  have hspace : ' ' ≤ c := by
    show ' '.toNat ≤ c.toNat
    have hvalue : ' '.toNat = 32 := rfl
    omega
  have hdelete : c ≠ '\x7f' := by
    rintro rfl
    exact hge (by decide)
  have hplain : isPlain c = true := by simp [isPlain, hspace, hdelete]
  rw [hplain] at h
  cases h

/-- The digits of a code point below 128. -/
theorem unitEscape_ofNat : ∀ n < 128, let written := unitEscape (Char.ofNat n)
    written = ['\\', 'u', '0', '0', written.getD 4 ' ', written.getD 5 ' '] ∧
      hexValue? (written.getD 4 ' ') = some (n / 16) ∧
      hexValue? (written.getD 5 ' ') = some (n % 16) := by
  decide +kernel

/-- A control character is written by its number. -/
theorem written_unitEscape (multiline : Bool) {c : Char} (h : c.toNat < 128) :
    Written multiline c (unitEscape c) := by
  obtain ⟨hwritten, ha, hb⟩ := unitEscape_ofNat c.toNat h
  rw [Char.ofNat_toNat] at hwritten ha hb
  rw [hwritten]
  exact .unit h ha hb

theorem written_escapeChar (multiline : Bool) {c : Char} (hc : c ≠ '"') :
    Written multiline c (escapeChar multiline c) := by
  unfold escapeChar
  split
  case isTrue h => exact .letter (by rw [h]; rfl)
  split
  case isTrue h => exact .letter (by rw [h]; rfl)
  split
  case isTrue h =>
    split
    case isTrue hm => exact .lineFeed hm h
    case isFalse => exact .letter (by rw [h]; rfl)
  split
  case isTrue h => exact .letter (by rw [h]; rfl)
  split
  case isTrue h => exact .letter (by rw [h]; rfl)
  split
  case isTrue h => exact .letter (by rw [h]; rfl)
  case isFalse hbackslash =>
    split
    case isTrue hplain => exact .plain hplain hc hbackslash
    case isFalse hplain =>
      exact written_unitEscape multiline (toNat_lt_of_not_isPlain (by simpa using hplain))

theorem written_quote (multiline : Bool) : Written multiline '"' ['\\', '"'] :=
  .letter rfl

/-- A letter that stands for a character has no other meaning behind a backslash. -/
theorem ne_of_unescape? {d c e : Char} (h : unescape? d = some c) (he : unescape? e = none) :
    d ≠ e := by
  rintro rfl
  rw [he] at h
  cases h

/-- A character is found by its number. -/
theorem charOf?_toNat (c : Char) : charOf? c.toNat = some c := by
  have hvalid : c.toNat.isValidChar := c.valid
  rw [charOf?, dif_pos hvalid]
  rfl

/-- The digits of a code point are read as its character. -/
theorem readUnit_digits {c a b : Char} (ha : hexValue? a = some (c.toNat / 16))
    (hb : hexValue? b = some (c.toNat % 16)) :
    readUnit 2 0 a = some (.unit 1 (c.toNat / 16), []) ∧
      readUnit 1 (c.toNat / 16) b = some (.plain, [c]) := by
  have hvalue : 16 * (c.toNat / 16) + c.toNat % 16 = c.toNat := by omega
  constructor
  · simp [readUnit, ha]
  · simp [readUnit, hb, hvalue, charOf?_toNat]

theorem readUnit_zero : readUnit 4 0 '0' = some (.unit 3 0, []) ∧
    readUnit 3 0 '0' = some (.unit 2 0, []) :=
  ⟨rfl, rfl⟩

/-! ## Strings on one line -/

/-- Every form of a character is read as the character. -/
theorem readBasic_written {c : Char} {w : List Char} (h : Written false c w) (read more : List Char) :
    readBasic .plain read (w ++ more) = readBasic .plain (c :: read) more := by
  cases h with
  | plain hplain hquote hbackslash => simp [readBasic, hplain, hquote, hbackslash]
  | lineFeed h => cases h
  | @letter d hd =>
    have hu : d ≠ 'u' := ne_of_unescape? hd rfl
    have hU : d ≠ 'U' := ne_of_unescape? hd rfl
    simp [readBasic, hu, hU, hd]
  | unit _ ha hb =>
    obtain ⟨h2, h1⟩ := readUnit_digits ha hb
    simp [readBasic, readUnit_zero, h2, h1]

/-- A text in double quotes is read back up to the quote that ends it. -/
theorem readBasic_escapeBasic (cs read rest : List Char) :
    readBasic .plain read (escapeBasic false 0 cs ++ '"' :: rest) =
      some (read.reverse ++ cs, rest) := by
  induction cs generalizing read with
  | nil => simp [escapeBasic, readBasic]
  | cons c cs ih =>
    have hwritten : ∃ w, Written false c w ∧
        escapeBasic false 0 (c :: cs) = w ++ escapeBasic false 0 cs := by
      by_cases hc : c = '"'
      · subst hc
        exact ⟨_, written_quote false, rfl⟩
      · exact ⟨_, written_escapeChar false hc, escapeBasic_cons_of_ne hc false 0 cs⟩
    obtain ⟨w, hw, he⟩ := hwritten
    rw [he, List.append_assoc, readBasic_written hw, ih, List.reverse_cons, List.append_assoc]
    rfl

/-- A text in single quotes is read up to the next one. -/
theorem readLiteral_append {cs : List Char} (hplain : ∀ c ∈ cs, isPlain c = true)
    (hquote : '\'' ∉ cs) (read rest : List Char) :
    readLiteral read (cs ++ '\'' :: rest) = some (read.reverse ++ cs, rest) := by
  induction cs generalizing read with
  | nil => simp [readLiteral]
  | cons c cs ih =>
    rw [List.forall_mem_cons] at hplain
    rw [List.mem_cons, not_or] at hquote
    have hc : c ≠ '\'' := Ne.symm hquote.1
    rw [List.cons_append, readLiteral, if_neg hc, if_pos hplain.1, ih hplain.2 hquote.2,
      List.reverse_cons, List.append_assoc]
    rfl

/-! ## Strings on several lines -/

/-- Where the reader stands behind so many quotes in a row. -/
def behind (run : ℕ) : Place :=
  if run = 0 then .plain else .quotes run

/-- One more quote is counted. -/
theorem readMultiline_quote {run : ℕ} (hrun : run < 4) (quote : Char) (read more : List Char) :
    readMultiline quote (behind run) read (quote :: more) =
      readMultiline quote (behind (run + 1)) read more := by
  cases run with
  | zero => simp [behind, readMultiline, multilineStep, multilinePlain]
  | succ n =>
    have hn : n ≠ 3 := by omega
    simp [behind, readMultiline, hn]

/-- Up to two quotes in front of another character belong to the string. -/
theorem readMultiline_of_ne {quote c : Char} {run : ℕ} (hrun : run ≤ 2) (hc : c ≠ quote)
    (read more : List Char) :
    readMultiline quote (behind run) read (c :: more) =
      readMultiline quote .plain (List.replicate run quote ++ read) (c :: more) := by
  cases run with
  | zero => rfl
  | succ n =>
    have hn : ¬ 3 ≤ n + 1 := by omega
    simp [behind, readMultiline, multilineStep, hc, hn]

/-- Three quotes end a string, and so many quotes that stand in front of them belong to it. -/
theorem readMultiline_closing {run : ℕ} (hrun : run ≤ 2) (quote : Char) (read : List Char)
    {rest : List Char} (hrest : rest.head? ≠ some quote) :
    readMultiline quote (behind run) read (List.replicate 3 quote ++ rest) =
      some (read.reverse ++ List.replicate run quote, rest) := by
  show readMultiline quote (behind run) read (quote :: quote :: quote :: rest) = _
  obtain rfl | hlt : run = 2 ∨ run < 2 := by omega
  · -- the fifth quote in a row ends the string at once
    rw [readMultiline_quote (by decide), readMultiline_quote (by decide)]
    simp [behind, readMultiline]
  · rw [readMultiline_quote (by omega), readMultiline_quote (by omega),
      readMultiline_quote (by omega)]
    have hbehind : behind (run + 1 + 1 + 1) = .quotes (run + 3) := if_neg (by omega)
    have hcount : run + 3 - 3 = run := by omega
    rw [hbehind]
    cases rest with
    | nil => simp [readMultiline]
    | cons c rest =>
      have hc : c ≠ quote := by
        rintro rfl
        exact hrest rfl
      simp [readMultiline, hc]

/-- Every form of a character is read as the character. -/
theorem readMultiline_written {c : Char} {w : List Char} (h : Written true c w)
    (read more : List Char) :
    readMultiline '"' .plain read (w ++ more) = readMultiline '"' .plain (c :: read) more := by
  cases h with
  | plain hplain hquote hbackslash =>
    have hreturn : c ≠ '\r' := ne_of_class hplain rfl
    simp [readMultiline, multilineStep, multilinePlain, hplain, hquote, hbackslash, hreturn]
  | lineFeed _ hc =>
    subst hc
    simp [readMultiline, multilineStep, multilinePlain]
  | @letter d hd =>
    have hu : d ≠ 'u' := ne_of_unescape? hd rfl
    have hU : d ≠ 'U' := ne_of_unescape? hd rfl
    have hblank : d ≠ ' ' := ne_of_unescape? hd rfl
    have htab : d ≠ '\t' := ne_of_unescape? hd rfl
    have hfeed : d ≠ '\n' := ne_of_unescape? hd rfl
    have hreturn : d ≠ '\r' := ne_of_unescape? hd rfl
    simp [readMultiline, multilineStep, multilinePlain, hu, hU, hblank, htab, hfeed, hreturn, hd]
  | unit _ ha hb =>
    obtain ⟨h2, h1⟩ := readUnit_digits ha hb
    simp [readMultiline, multilineStep, multilinePlain, readUnit_zero, h2, h1]

/-- No form of a character but the quote itself begins with a quote. -/
theorem Written.exists_cons {multiline : Bool} {c : Char} {w : List Char}
    (h : Written multiline c w) : ∃ d more, w = d :: more ∧ d ≠ '"' := by
  cases h with
  | plain _ hquote => exact ⟨c, [], rfl, hquote⟩
  | lineFeed => exact ⟨'\n', [], rfl, by decide⟩
  | letter => exact ⟨'\\', _, rfl, by decide⟩
  | unit => exact ⟨'\\', _, rfl, by decide⟩

/-- A character behind quotes makes them belong to the string. -/
theorem readMultiline_behind_written {run : ℕ} (hrun : run ≤ 2) {c : Char} {w : List Char}
    (h : Written true c w) (read more : List Char) :
    readMultiline '"' (behind run) read (w ++ more) =
      readMultiline '"' .plain (c :: (List.replicate run '"' ++ read)) more := by
  rw [← readMultiline_written h]
  obtain ⟨d, tail, rfl, hd⟩ := h.exists_cons
  exact readMultiline_of_ne hrun hd read (tail ++ more)

/-- A text of several lines is read back up to the three quotes that end it. -/
theorem readMultiline_escapeBasic {run : ℕ} (hrun : run ≤ 2) (cs read : List Char)
    {rest : List Char} (hrest : rest.head? ≠ some '"') :
    readMultiline '"' (behind run) read
        (escapeBasic true run cs ++ (List.replicate 3 '"' ++ rest)) =
      some (read.reverse ++ List.replicate run '"' ++ cs, rest) := by
  induction cs generalizing run read with
  | nil =>
    rw [List.append_nil]
    exact readMultiline_closing hrun '"' read hrest
  | cons c cs ih =>
    by_cases hraw : c = '"' ∧ run < 2
    · obtain ⟨rfl, hlt⟩ := hraw
      have he : escapeBasic true run ('"' :: cs) = '"' :: escapeBasic true (run + 1) cs := by
        rw [escapeBasic, if_pos rfl, if_pos ⟨rfl, hlt⟩]
      rw [he, List.cons_append, readMultiline_quote (by omega), ih (by omega),
        List.replicate_succ', List.append_assoc, List.append_assoc, List.append_assoc]
      rfl
    · have hwritten : ∃ w, Written true c w ∧
          escapeBasic true run (c :: cs) = w ++ escapeBasic true 0 cs := by
        by_cases hc : c = '"'
        · subst hc
          refine ⟨_, written_quote true, ?_⟩
          rw [escapeBasic, if_pos rfl, if_neg fun h => hraw ⟨rfl, h.2⟩]
          rfl
        · exact ⟨_, written_escapeChar true hc, escapeBasic_cons_of_ne hc true run cs⟩
      obtain ⟨w, hw, he⟩ := hwritten
      have hbehind : Place.plain = behind 0 := rfl
      rw [he, List.append_assoc, readMultiline_behind_written hrun hw, hbehind, ih (by omega)]
      simp

/-- A run only gets longer. -/
theorem le_longestRun (c : Char) (current : ℕ) (ds : List Char) :
    current ≤ longestRun c current ds := by
  induction ds generalizing current with
  | nil => exact Nat.le_refl current
  | cons d ds ih =>
    rw [longestRun]
    split
    · exact Nat.le_trans (Nat.le_succ current) (ih (current + 1))
    · exact Nat.le_max_left current _

/-- A run of a character that occurs has a length. -/
theorem not_mem_of_longestRun {c : Char} {current : ℕ} {ds : List Char}
    (h : longestRun c current ds = 0) : c ∉ ds := by
  induction ds generalizing current with
  | nil => exact List.not_mem_nil
  | cons d ds ih =>
    rw [longestRun] at h
    split at h
    · have hle := le_longestRun c (current + 1) ds
      omega
    · rename_i hd
      have hrest : longestRun c 0 ds = 0 := by omega
      rw [List.mem_cons, not_or]
      exact ⟨Ne.symm hd, ih hrest⟩

/-- Between single quotes a character stands for itself. -/
theorem readMultiline_literal_char {c : Char} (hc : c ≠ '\'') (hplain : isPlain c = true ∨ c = '\n')
    (read more : List Char) :
    readMultiline '\'' .plain read (c :: more) = readMultiline '\'' .plain (c :: read) more := by
  have hreturn : c ≠ '\r' := by
    rintro rfl
    rcases hplain with h | h <;> cases h
  simp [readMultiline, multilineStep, multilinePlain, hc, hreturn, hplain.symm]

/-- Between single quotes on several lines, all runs of quotes are short enough. -/
theorem readMultiline_literal {run : ℕ} {cs : List Char}
    (hplain : ∀ c ∈ cs, isPlain c = true ∨ c = '\n') (hlong : longestRun '\'' run cs ≤ 2)
    (read : List Char) {rest : List Char} (hrest : rest.head? ≠ some '\'') :
    readMultiline '\'' (behind run) read (cs ++ (List.replicate 3 '\'' ++ rest)) =
      some (read.reverse ++ List.replicate run '\'' ++ cs, rest) := by
  have hrun : run ≤ 2 := Nat.le_trans (le_longestRun '\'' run cs) hlong
  induction cs generalizing run read with
  | nil =>
    rw [List.append_nil]
    exact readMultiline_closing hrun '\'' read hrest
  | cons c cs ih =>
    rw [List.forall_mem_cons] at hplain
    rw [longestRun] at hlong
    by_cases hc : c = '\''
    · subst hc
      rw [if_pos rfl] at hlong
      have hsucc : run + 1 ≤ 2 := Nat.le_trans (le_longestRun '\'' (run + 1) cs) hlong
      rw [List.cons_append, readMultiline_quote (by omega), ih hplain.2 hlong read hsucc,
        List.replicate_succ', List.append_assoc, List.append_assoc, List.append_assoc]
      rfl
    · rw [if_neg hc] at hlong
      have hrest' : longestRun '\'' 0 cs ≤ 2 := by omega
      have hbehind : Place.plain = behind 0 := rfl
      rw [List.cons_append, readMultiline_of_ne hrun hc, readMultiline_literal_char hc hplain.1,
        hbehind, ih hplain.2 hrest' _ (by omega)]
      simp

/-! ## Opening quotes -/

/-- Only a line feed behind the opening quotes is dropped. -/
theorem dropLineBreak_of_head? {cs : List Char} (hfeed : cs.head? ≠ some '\n')
    (hreturn : cs.head? ≠ some '\r') : dropLineBreak cs = cs := by
  unfold dropLineBreak
  split
  · exact absurd rfl hfeed
  · exact absurd rfl hreturn
  · rfl

/-- The line feed behind the opening quotes is dropped again, and nothing else. -/
theorem dropLineBreak_opening {lineFeed : Bool} {body : List Char}
    (hfeed : lineFeed = false → body.head? ≠ some '\n') (hreturn : body.head? ≠ some '\r') :
    dropLineBreak ((if lineFeed then ['\n'] else []) ++ body) = body := by
  cases lineFeed with
  | true => rfl
  | false => exact dropLineBreak_of_head? (hfeed rfl) hreturn

/-- A line feed is the one line break that a form of a character may begin with. -/
theorem Written.head?_ne {multiline : Bool} {c : Char} {w : List Char}
    (h : Written multiline c w) (more : List Char) :
    (w ++ more).head? ≠ some '\r' ∧ (c ≠ '\n' → (w ++ more).head? ≠ some '\n') := by
  cases h with
  | plain hplain =>
    have hreturn : c ≠ '\r' := ne_of_class hplain rfl
    exact ⟨fun h => hreturn (Option.some_inj.mp h), fun hc h => hc (Option.some_inj.mp h)⟩
  | lineFeed _ hc => exact ⟨by simp, fun h => absurd hc h⟩
  | letter => exact ⟨by simp, fun _ => by simp⟩
  | unit => exact ⟨by simp, fun _ => by simp⟩

/-- An escaped text begins with a line's end only if the text does. -/
theorem head?_escapeBasic (cs more : List Char) :
    (escapeBasic true 0 cs ++ '"' :: more).head? ≠ some '\r' ∧
      ('\n' ∉ cs → (escapeBasic true 0 cs ++ '"' :: more).head? ≠ some '\n') := by
  cases cs with
  | nil => exact ⟨by simp [escapeBasic], fun _ => by simp [escapeBasic]⟩
  | cons c cs =>
    by_cases hc : c = '"'
    · subst hc
      exact ⟨by simp [escapeBasic], fun _ => by simp [escapeBasic]⟩
    · rw [escapeBasic_cons_of_ne hc, List.append_assoc]
      obtain ⟨hreturn, hfeed⟩ := (written_escapeChar true hc).head?_ne
        (escapeBasic true 0 cs ++ '"' :: more)
      refine ⟨hreturn, fun hcs => hfeed ?_⟩
      rintro rfl
      exact hcs List.mem_cons_self

/-! ## The forms of a text -/

variable {cs rest : List Char}

/-- A double quote that is not one of three opens a string on one line. -/
theorem readString_basic {body : List Char} (h : ∀ more, body ≠ '"' :: '"' :: more) :
    readString ('"' :: body) =
      (readBasic .plain [] body).map fun (s, rest) => (String.ofList s, rest) := by
  unfold readString
  split
  · rename_i more he
    exact absurd (List.cons.inj he).2 (h more)
  · rename_i he
    cases he
  · rename_i he
    cases he
    rfl
  · rename_i he
    cases he
  · rename_i hno _
    exact absurd rfl (hno body)

/-- A single quote that is not one of three opens a string on one line. -/
theorem readString_literal {body : List Char} (h : body.head? ≠ some '\'') :
    readString ('\'' :: body) =
      (readLiteral [] body).map fun (s, rest) => (String.ofList s, rest) := by
  unfold readString
  split
  · rename_i he
    cases he
  · rename_i more he
    rw [(List.cons.inj he).2] at h
    exact absurd rfl h
  · rename_i he
    cases he
  · rename_i he
    cases he
    rfl
  · rename_i hno
    exact absurd rfl (hno body)

/-- A text in double quotes is read back. -/
theorem readString_writeBasic (hrest : rest.head? ≠ some '"') :
    readString ('"' :: escapeBasic false 0 cs ++ ['"'] ++ rest) = some (String.ofList cs, rest) := by
  have hone : ∀ more, escapeBasic false 0 cs ++ '"' :: rest ≠ '"' :: '"' :: more := by
    intro more he
    cases cs with
    | nil =>
      have htail : rest = '"' :: more := (List.cons.inj he).2
      rw [htail] at hrest
      exact hrest rfl
    | cons c cs =>
      by_cases hc : c = '"'
      · subst hc
        cases (List.cons.inj he).1
      · obtain ⟨d, tail, hd, hne⟩ := (written_escapeChar false hc).exists_cons
        rw [escapeBasic_cons_of_ne hc, hd] at he
        exact hne (List.cons.inj he).1
  have hread := readBasic_escapeBasic cs [] rest
  rw [List.cons_append, List.cons_append, List.append_assoc, List.singleton_append,
    readString_basic hone, hread]
  rfl

theorem readString_writeLiteral (hne : cs ≠ []) (hplain : ∀ c ∈ cs, isPlain c = true)
    (hquote : '\'' ∉ cs) :
    readString ('\'' :: cs ++ ['\''] ++ rest) = some (String.ofList cs, rest) := by
  have hhead : (cs ++ '\'' :: rest).head? ≠ some '\'' := by
    obtain ⟨c, tail, rfl⟩ := List.exists_cons_of_ne_nil hne
    intro h
    have hc : c = '\'' := Option.some_inj.mp h
    exact hquote (by rw [hc]; exact List.mem_cons_self)
  have hread := readLiteral_append hplain hquote [] rest
  rw [List.cons_append, List.cons_append, List.append_assoc, List.singleton_append,
    readString_literal hhead, hread]
  rfl

/-- A text in three double quotes is read back. -/
theorem readString_writeMultilineBasic (hrest : rest.head? ≠ some '"') :
    readString (openingQuotes '"' (cs.contains '\n') ++ escapeBasic true 0 cs ++
        List.replicate 3 '"' ++ rest) = some (String.ofList cs, rest) := by
  have hread : readMultiline '"' .plain [] (escapeBasic true 0 cs ++ '"' :: '"' :: '"' :: rest) =
      some (cs, rest) := readMultiline_escapeBasic (Nat.zero_le 2) cs [] hrest
  obtain ⟨hreturn, hfeed⟩ := head?_escapeBasic cs ('"' :: '"' :: rest)
  have hfeed' : cs.contains '\n' = false →
      (escapeBasic true 0 cs ++ '"' :: '"' :: '"' :: rest).head? ≠ some '\n' :=
    fun hno => hfeed (by simpa using hno)
  have hdrop := dropLineBreak_opening hfeed' hreturn
  have htext : openingQuotes '"' (cs.contains '\n') ++ escapeBasic true 0 cs ++
      List.replicate 3 '"' ++ rest = '"' :: '"' :: '"' ::
        ((if cs.contains '\n' then ['\n'] else []) ++
          (escapeBasic true 0 cs ++ '"' :: '"' :: '"' :: rest)) := by
    simp [openingQuotes, List.replicate]
  rw [htext, readString, hdrop, hread]
  rfl

theorem readString_writeMultilineLiteral (hplain : ∀ c ∈ cs, isPlain c = true ∨ c = '\n')
    (hlong : longestRun '\'' 0 cs ≤ 2) (hrest : rest.head? ≠ some '\'') :
    readString (openingQuotes '\'' (cs.contains '\n') ++ cs ++ List.replicate 3 '\'' ++ rest) =
      some (String.ofList cs, rest) := by
  have hread : readMultiline '\'' .plain [] (cs ++ '\'' :: '\'' :: '\'' :: rest) =
      some (cs, rest) := readMultiline_literal hplain hlong [] hrest
  have hhead : (cs ++ '\'' :: '\'' :: '\'' :: rest).head? ≠ some '\r' ∧
      (cs.contains '\n' = false → (cs ++ '\'' :: '\'' :: '\'' :: rest).head? ≠ some '\n') := by
    cases cs with
    | nil => exact ⟨by simp, fun _ => by simp⟩
    | cons c cs =>
      constructor
      · intro h
        have hc : c = '\r' := Option.some_inj.mp h
        rcases hplain c List.mem_cons_self with hp | hp
        · exact ne_of_class hp rfl hc
        · rw [hc] at hp
          cases hp
      · intro hno h
        have hc : c = '\n' := Option.some_inj.mp h
        rw [hc] at hno
        simp at hno
  have hdrop := dropLineBreak_opening hhead.2 hhead.1
  have htext : openingQuotes '\'' (cs.contains '\n') ++ cs ++ List.replicate 3 '\'' ++ rest =
      '\'' :: '\'' :: '\'' :: ((if cs.contains '\n' then ['\n'] else []) ++
        (cs ++ '\'' :: '\'' :: '\'' :: rest)) := by
    simp [openingQuotes, List.replicate]
  rw [htext, readString, hdrop, hread]
  rfl

/-- A text without control characters consists of line feeds and characters that stand for
themselves. -/
theorem isPlain_of_control (h : (shapeOf cs).control = false) :
    ∀ c ∈ cs, isPlain c = true ∨ c = '\n' := by
  intro c hc
  have hno := List.any_eq_false.mp h c hc
  by_cases hfeed : c = '\n'
  · exact .inr hfeed
  · exact .inl (by simpa [hfeed] using hno)

/-- A written text is read back, whatever its characters are. Behind it there is no quote. -/
theorem readString_writeString (hdouble : rest.head? ≠ some '"') (hsingle : rest.head? ≠ some '\'') :
    readString (writeString cs ++ rest) = some (String.ofList cs, rest) := by
  unfold writeString
  dsimp only
  split
  case isTrue => exact readString_writeBasic hdouble
  case isFalse hbasic =>
    split
    case isTrue h =>
      rw [Bool.and_eq_true, Bool.and_eq_true, Bool.not_eq_true', Bool.not_eq_true', beq_iff_eq] at h
      obtain ⟨⟨hcontrol, hsingles⟩, hfeed⟩ := h
      -- the empty text is written in double quotes
      have hne : cs ≠ [] := by
        rintro rfl
        exact hbasic rfl
      have hplain : ∀ c ∈ cs, isPlain c = true := by
        intro c hc
        rcases isPlain_of_control hcontrol c hc with hp | rfl
        · exact hp
        · have hmem : cs.contains '\n' = true := List.contains_iff_mem.mpr hc
          rw [show cs.contains '\n' = false from hfeed] at hmem
          cases hmem
      exact readString_writeLiteral hne hplain (not_mem_of_longestRun hsingles)
    case isFalse =>
      split
      case isTrue => exact readString_writeMultilineBasic hdouble
      case isFalse =>
        split
        case isTrue h =>
          rw [Bool.and_eq_true, Bool.not_eq_true', decide_eq_true_eq] at h
          exact readString_writeMultilineLiteral (isPlain_of_control h.1) h.2 hsingle
        case isFalse =>
          split
          case isTrue => exact readString_writeMultilineBasic hdouble
          case isFalse => exact readString_writeBasic hdouble

end Toml

end RemoteTable
