import RemoteTable.Number.Double
import RemoteTable.Proofs.Text.Numeral

/-!
# Characters of numbers

A text that is read as a number consists of digits, signs, points and exponent letters
(`isNumberChar_of_signed?`, `Double.isNumberChar_of_ofText?`), except for the names of the doubles
without a decimal notation. A double is shown without plus signs and exponents
(`Double.not_mem_text`), so a text with one of these is not given back.
-/

namespace RemoteTable

/-- Whether a character occurs in the notation of numbers. -/
def isNumberChar (c : Char) : Bool :=
  isDigit c || c == '+' || c == '-' || c == '.' || c == 'e' || c == 'E'

theorem isNumberChar_of_isDigit {c : Char} (h : isDigit c = true) : isNumberChar c = true := by
  simp [isNumberChar, h]

theorem isNumberChar_of_numeral? {cs : List Char} {n : ℕ} (h : numeral? cs = some n) :
    ∀ c ∈ cs, isNumberChar c = true :=
  fun c hc => isNumberChar_of_isDigit (isDigit_of_numeral? h c hc)

theorem isNumberChar_of_signed? {cs : List Char} {n : ℤ} (h : signed? cs = some n) :
    ∀ c ∈ cs, isNumberChar c = true := by
  have hsigned : ∀ {sign digits m}, isNumberChar sign = true → numeral? digits = some m →
      ∀ c ∈ sign :: digits, isNumberChar c = true := by
    intro sign digits m hsign hm c hc
    rcases List.mem_cons.mp hc with rfl | hc
    · exact hsign
    · exact isNumberChar_of_numeral? hm c hc
  rcases signed?_cases h with ⟨digits, m, rfl, hm, -⟩ | ⟨digits, m, rfl, hm, -⟩ | ⟨-, -, m, hm, -⟩
  · exact hsigned (by decide) hm
  · exact hsigned (by decide) hm
  · exact isNumberChar_of_numeral? hm

namespace Double

/-! ## Reading -/

/-- Whether a text begins with a minus sign, and what stands behind its sign. -/
def signAndBody : List Char → Bool × List Char
  | '-' :: cs => (true, cs)
  | '+' :: cs => (false, cs)
  | cs => (false, cs)

/-- Whether a text is the name of an infinity or of no number, in any letter case and behind an
optional sign. -/
def IsName (cs : List Char) : Prop :=
  String.ofList ((signAndBody cs).2.map Char.toLower) ∈ ["inf", "infinity", "nan"]

instance (cs : List Char) : Decidable (IsName cs) :=
  inferInstanceAs (Decidable (_ ∈ _))

/-- The digits behind a point, and what follows. -/
def fractionAndRest : List Char → List Char × List Char
  | '.' :: cs => (cs.takeWhile isDigit, cs.dropWhile isDigit)
  | cs => ([], cs)

theorem isNumberChar_of_exponent? {cs : List Char} {n : ℤ} (h : exponent? cs = some n) :
    ∀ c ∈ cs, isNumberChar c = true := by
  cases cs with
  | nil => simp
  | cons c cs =>
    rw [exponent?] at h
    split at h
    · rename_i hletter
      intro d hd
      rcases List.mem_cons.mp hd with rfl | hd
      · rcases hletter with rfl | rfl <;> decide
      · exact isNumberChar_of_signed? h d hd
    · cases h

/-- In front of the exponent there may be a point and digits behind it. -/
theorem isNumberChar_of_fractionAndRest (cs : List Char) :
    ∃ point, cs = point ++ ((fractionAndRest cs).1 ++ (fractionAndRest cs).2) ∧
      ∀ c ∈ point, isNumberChar c = true := by
  unfold fractionAndRest
  split
  · exact ⟨['.'], by simp, List.forall_mem_singleton.mpr (by decide)⟩
  · exact ⟨[], rfl, by simp⟩

/-- The digits around a point are read as one numeral, and what follows is an exponent. -/
theorem exists_of_unsigned? {negative : Bool} {cs : List Char} {x : Double}
    (h : unsigned? negative cs = some x) : ∃ digits exponent,
      numeral? (cs.takeWhile isDigit ++ (fractionAndRest (cs.dropWhile isDigit)).1) = some digits ∧
      exponent? (fractionAndRest (cs.dropWhile isDigit)).2 = some exponent := by
  unfold unsigned? at h
  dsimp only at h
  split at h
  · rename_i digits exponent hdigits hexponent
    exact ⟨digits, exponent, hdigits, hexponent⟩
  · cases h

/-- Texts that are read as doubles without a sign are made of the characters of numbers. -/
theorem isNumberChar_of_unsigned? {negative : Bool} {cs : List Char} {x : Double}
    (h : unsigned? negative cs = some x) : ∀ c ∈ cs, isNumberChar c = true := by
  obtain ⟨digits, exponent, hdigits, hexponent⟩ := exists_of_unsigned? h
  obtain ⟨point, hbehind, hpoint⟩ := isNumberChar_of_fractionAndRest (cs.dropWhile isDigit)
  have hread := isNumberChar_of_numeral? hdigits
  intro c hc
  rw [← List.takeWhile_append_dropWhile (p := isDigit) (l := cs), hbehind] at hc
  simp only [List.mem_append] at hc hread
  rcases hc with hc | hc | hc | hc
  · exact hread c (.inl hc)
  · exact hpoint c hc
  · exact hread c (.inr hc)
  · exact isNumberChar_of_exponent? hexponent c hc

/-- In front of a number there may be a sign. -/
theorem isNumberChar_of_signAndBody (cs : List Char) :
    ∃ sign, cs = sign ++ (signAndBody cs).2 ∧ ∀ c ∈ sign, isNumberChar c = true := by
  unfold signAndBody
  split
  · exact ⟨['-'], rfl, List.forall_mem_singleton.mpr (by decide)⟩
  · exact ⟨['+'], rfl, List.forall_mem_singleton.mpr (by decide)⟩
  · exact ⟨[], rfl, by simp⟩

/-- A text that is read as a double and is no name consists of the characters of numbers. -/
theorem isNumberChar_of_ofText? {cs : List Char} {x : Double} (h : ofText? cs = some x)
    (hname : ¬ IsName cs) : ∀ c ∈ cs, isNumberChar c = true := by
  change (if String.ofList ((signAndBody cs).2.map Char.toLower) = "inf" ∨
      String.ofList ((signAndBody cs).2.map Char.toLower) = "infinity" then
        some (infinite (signAndBody cs).1)
    else if String.ofList ((signAndBody cs).2.map Char.toLower) = "nan" then some notANumber
    else unsigned? (signAndBody cs).1 (signAndBody cs).2) = some x at h
  simp only [IsName, List.mem_cons, List.not_mem_nil, or_false, not_or] at hname
  rw [if_neg (not_or.mpr ⟨hname.1, hname.2.1⟩), if_neg hname.2.2] at h
  obtain ⟨sign, hcs, hsign⟩ := isNumberChar_of_signAndBody cs
  intro c hc
  rw [hcs] at hc
  rcases List.mem_append.mp hc with hc | hc
  · exact hsign c hc
  · exact isNumberChar_of_unsigned? h c hc

/-! ## Showing -/

/-- Whether a character occurs in a number that is shown. -/
def isPlainChar (c : Char) : Bool :=
  isDigit c || c == '-' || c == '.'

theorem isPlainChar_of_isDigit {c : Char} (h : isDigit c = true) : isPlainChar c = true := by
  simp [isPlainChar, h]

/-- A number that is shown in full has no exponent. -/
theorem isPlainChar_of_mem_renderPositional {d : Decimal} {c : Char}
    (h : c ∈ (NumberLayout.plain.renderPositional d).toList) : isPlainChar c = true := by
  have hdigits : ∀ {zeros n c}, c ∈ List.replicate zeros '0' ++ Nat.toDigits 10 n →
      isPlainChar c = true := by
    intro zeros n c hc
    exact isPlainChar_of_isDigit (isDigit_of_numeral? (numeral?_toDigits zeros n) c hc)
  have hending : NumberLayout.plain.wholeEnding = "" := rfl
  unfold NumberLayout.renderPositional at h
  dsimp only at h
  split at h
  · simp only [hending, String.toList_append, String.toList_ofList, List.mem_append] at h
    rcases h with (h | h) | h
    · exact isPlainChar_of_isDigit (isDigit_of_mem_toDigits h)
    · rw [List.eq_of_mem_replicate h]
      decide
    · cases h
  · simp only [String.toList_append, String.toList_ofList, List.mem_append] at h
    rcases h with (h | h) | h
    · exact hdigits (List.mem_of_mem_take h)
    · obtain rfl : c = '.' := by simpa using h
      decide
    · exact hdigits (List.mem_of_mem_drop h)

theorem isPlainChar_eq_false {c : Char} (hc : c ∈ ['+', 'e', 'E']) : isPlainChar c = false := by
  simp only [List.mem_cons, List.not_mem_nil, or_false] at hc
  rcases hc with rfl | rfl | rfl <;> decide

/-- A double is shown without a plus sign and without an exponent. -/
theorem not_mem_text {c : Char} (hc : c ∈ ['+', 'e', 'E']) (x : Double) : c ∉ x.text.toList := by
  intro hmem
  cases x with
  | finite x =>
    have hplain : isPlainChar c = true := by
      have hrender : NumberLayout.plain.render x =
          (if x.negative then "-" else "") ++ NumberLayout.plain.renderPositional x.shortest := rfl
      rw [text, hrender, String.toList_append, List.mem_append] at hmem
      rcases hmem with hsign | hdigits
      · have hc : c = '-' := by
          cases hnegative : x.negative <;> simp [hnegative] at hsign
          exact hsign
        rw [hc]
        decide
      · exact isPlainChar_of_mem_renderPositional hdigits
    rw [isPlainChar_eq_false hc] at hplain
    cases hplain
  | infinite negative =>
    simp only [List.mem_cons, List.not_mem_nil, or_false] at hc
    rcases hc with rfl | rfl | rfl <;> cases negative <;> revert hmem <;> decide
  | notANumber =>
    simp only [List.mem_cons, List.not_mem_nil, or_false] at hc
    rcases hc with rfl | rfl | rfl <;> revert hmem <;> decide

end Double

end RemoteTable
