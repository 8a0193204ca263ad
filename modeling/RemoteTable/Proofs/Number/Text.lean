import RemoteTable.Json.Basic
import RemoteTable.Proofs.Number.Double
import RemoteTable.Proofs.Number.Shortest

/-!
# The text of a number determines it

The text of a double has a whole part and, behind it, a fraction or an exponent (`Spelling`). It is read
as its shortest decimal, and so no other double has it. Integers are written without both, so that no
integer is written as a double is (`Number.text_injective`). All these texts consist of the characters of
numbers and begin with a digit or a minus sign.
-/

namespace RemoteTable

/-! ## Decimal notation -/

/-- The decimal that a text without a sign spells: digits with a point somewhere, and possibly an
exponent. -/
def Decimal.ofText? (cs : List Char) : Option Decimal :=
  let (fraction, rest) := Double.fractionAndRest (cs.dropWhile isDigit)
  match numeral? (cs.takeWhile isDigit ++ fraction), Double.exponent? rest with
  | some digits, some exponent => some ⟨digits, exponent - fraction.length⟩
  | _, _ => none

/-- The reader of doubles rounds the decimal to the nearest double. -/
theorem Double.unsigned?_eq (negative : Bool) (cs : List Char) : unsigned? negative cs =
    (Decimal.ofText? cs).map fun d => ofDecimal negative d.digits d.exponent := by
  change (match numeral? (cs.takeWhile isDigit ++ (fractionAndRest (cs.dropWhile isDigit)).1),
      exponent? (fractionAndRest (cs.dropWhile isDigit)).2 with
    | some digits, some exponent =>
      some (ofDecimal negative digits
        (exponent - (fractionAndRest (cs.dropWhile isDigit)).1.length))
    | _, _ => none) = _
  unfold Decimal.ofText?
  dsimp only
  cases numeral? (cs.takeWhile isDigit ++ (fractionAndRest (cs.dropWhile isDigit)).1) with
  | none => rfl
  | some digits =>
    cases exponent? (fractionAndRest (cs.dropWhile isDigit)).2 with
    | none => rfl
    | some exponent => rfl

/-- The parts of a decimal notation that begins with a digit. -/
structure Spelling where
  /-- The digits before the point. -/
  whole : List Char
  /-- The digits behind the point, if there is one. -/
  fraction : Option (List Char)
  /-- The exponent, if there is one. -/
  exponent : Option ℤ
  /-- There is a digit before the point. -/
  whole_ne_nil : whole ≠ []
  /-- Before the point there are only digits. -/
  isDigit_whole : ∀ c ∈ whole, isDigit c = true
  /-- Behind the point there are only digits. -/
  isDigit_fraction : ∀ c ∈ fraction.getD [], isDigit c = true

namespace Spelling

variable (s : Spelling)

/-- The point and the digits behind it. -/
def pointText : Option (List Char) → List Char
  | none => []
  | some digits => '.' :: digits

/-- The letter of an exponent, its sign and its digits. -/
def exponentText : Option ℤ → List Char
  | none => []
  | some exponent =>
    'e' :: (if 0 ≤ exponent then '+' else '-') :: Nat.toDigits 10 exponent.natAbs

/-- The notation itself. -/
def text : List Char :=
  s.whole ++ (pointText s.fraction ++ exponentText s.exponent)

/-- The digits as one number, and the power of ten that scales the last of them. -/
def decimal : Decimal :=
  ⟨valueFrom 0 (s.whole ++ s.fraction.getD []), s.exponent.getD 0 - (s.fraction.getD []).length⟩

/-- An exponent that is written is read, and none is zero. -/
theorem exponent?_exponentText (exponent : Option ℤ) :
    Double.exponent? (exponentText exponent) = some (exponent.getD 0) := by
  cases exponent with
  | none => rfl
  | some exponent =>
    have hdigits : numeral? (Nat.toDigits 10 exponent.natAbs) = some exponent.natAbs :=
      numeral?_toDigits 0 exponent.natAbs
    rw [exponentText, Double.exponent?, if_pos (Or.inl rfl)]
    split
    · rename_i hnonneg
      rw [signed?_plus, hdigits]
      exact congrArg some (Int.natAbs_of_nonneg hnonneg)
    · rename_i hneg
      have hvalue : -(exponent.natAbs : ℤ) = exponent := by omega
      rw [signed?_minus, hdigits, Option.map_some, hvalue]
      rfl

/-- The digits behind the point end where the exponent begins. -/
theorem fractionAndRest_text (fraction : Option (List Char)) (exponent : Option ℤ)
    (h : ∀ c ∈ fraction.getD [], isDigit c = true) :
    Double.fractionAndRest (pointText fraction ++ exponentText exponent) =
      (fraction.getD [], exponentText exponent) := by
  have hstop : ∀ c ∈ (exponentText exponent).head?, isDigit c = false := by
    cases exponent <;> simp [exponentText, isDigit]
  cases fraction with
  | none =>
    cases exponent with
    | none => rfl
    | some exponent => rfl
  | some digits =>
    obtain ⟨htake, hdrop⟩ := span_append h hstop
    exact Prod.ext htake hdrop

/-- A decimal notation is read as its digits and their exponent. -/
theorem ofText?_text : Decimal.ofText? s.text = some s.decimal := by
  have hstop : ∀ c ∈ (pointText s.fraction ++ exponentText s.exponent).head?, isDigit c = false := by
    cases s.fraction <;> cases s.exponent <;> simp [pointText, exponentText, isDigit]
  obtain ⟨htake, hdrop⟩ := span_append s.isDigit_whole hstop
  have hdigits : numeral? (s.whole ++ s.fraction.getD []) =
      some (valueFrom 0 (s.whole ++ s.fraction.getD [])) := by
    refine numeral?_eq_some_iff.mpr ⟨by simp [s.whole_ne_nil], fun c hc => ?_, rfl⟩
    rcases List.mem_append.mp hc with hc | hc
    · exact s.isDigit_whole c hc
    · exact s.isDigit_fraction c hc
  unfold Decimal.ofText? text
  rw [htake, hdrop, fractionAndRest_text _ _ s.isDigit_fraction]
  dsimp only
  rw [hdigits, exponent?_exponentText]
  rfl

/-- A decimal notation begins with a digit. -/
theorem exists_text_eq : ∃ c cs, s.text = c :: cs ∧ isDigit c = true := by
  obtain ⟨c, cs, hwhole⟩ := List.exists_cons_of_ne_nil s.whole_ne_nil
  refine ⟨c, cs ++ (pointText s.fraction ++ exponentText s.exponent), ?_, ?_⟩
  · rw [text, hwhole]
    rfl
  · exact s.isDigit_whole c (by rw [hwhole]; exact List.mem_cons_self)

theorem isNumberChar_text : ∀ c ∈ s.text, isNumberChar c = true := by
  have hread : Double.unsigned? false s.text =
      some (.ofDecimal false s.decimal.digits s.decimal.exponent) := by
    rw [Double.unsigned?_eq, ofText?_text, Option.map_some]
  exact Double.isNumberChar_of_unsigned? hread

end Spelling

/-! ## Layouts -/

namespace NumberLayout

/-- A text with a point spells the decimal it is made of. -/
theorem exists_renderPositional (d : Decimal) : ∃ s : Spelling,
    (wire.renderPositional d).toList = s.text ∧ s.decimal.value = d.value ∧ s.fraction.isSome := by
  have hdigits : ∀ zeros, numeral? (List.replicate zeros '0' ++ Nat.toDigits 10 d.digits) =
      some d.digits := fun zeros => numeral?_toDigits zeros d.digits
  unfold renderPositional
  dsimp only
  split
  · -- a whole number ends in zeros, and the fraction is one more of them
    rename_i hnonneg
    refine ⟨⟨Nat.toDigits 10 d.digits ++ List.replicate d.exponent.toNat '0', some ['0'], none,
      ?_, ?_, ?_⟩, ?_, ?_, rfl⟩
    · simp [Nat.toDigits_ne_nil]
    · intro c hc
      rcases List.mem_append.mp hc with hc | hc
      · exact isDigit_of_mem_toDigits hc
      · rw [List.eq_of_mem_replicate hc]
        decide
    · intro c hc
      rw [List.mem_singleton.mp hc]
      decide
    · simp [wire, Spelling.text, Spelling.pointText, Spelling.exponentText]
    · have hvalue : valueFrom 0 (Nat.toDigits 10 d.digits ++ List.replicate d.exponent.toNat '0' ++
          ['0']) = 10 * (10 ^ d.exponent.toNat * d.digits) := by
        rw [valueFrom_eq, Nat.ofDigitChars_append, Nat.ofDigitChars_append,
          Nat.ofDigitChars_ten_toDigits, Nat.ofDigitChars_replicate_zero]
        rfl
      have hexponent : (10 : ℚ) ^ d.exponent = 10 ^ d.exponent.toNat := by
        rw [← zpow_natCast, Int.toNat_of_nonneg hnonneg]
      show ((valueFrom 0 (Nat.toDigits 10 d.digits ++ List.replicate d.exponent.toNat '0' ++
        ['0']) : ℕ) : ℚ) * 10 ^ (0 - 1 : ℤ) = d.digits * 10 ^ d.exponent
      rw [hvalue, hexponent]
      norm_num
      ring
  · -- zeros in front make room for a digit before the point
    rename_i hneg
    generalize hplaces : (-d.exponent).toNat = places
    generalize hpadded : List.replicate (places + 1 - (Nat.toDigits 10 d.digits).length) '0' ++
      Nat.toDigits 10 d.digits = padded
    have hlength : places + 1 ≤ padded.length := by
      rw [← hpadded, List.length_append, List.length_replicate]
      omega
    obtain ⟨-, hall, hvalue⟩ := numeral?_eq_some_iff.mp
      (hdigits (places + 1 - (Nat.toDigits 10 d.digits).length))
    rw [hpadded] at hall hvalue
    refine ⟨⟨padded.take (padded.length - places), some (padded.drop (padded.length - places)), none,
      ?_, ?_, ?_⟩, ?_, ?_, rfl⟩
    · apply List.ne_nil_of_length_pos
      rw [List.length_take]
      omega
    · exact fun c hc => hall c (List.mem_of_mem_take hc)
    · exact fun c hc => hall c (List.mem_of_mem_drop hc)
    · simp [Spelling.text, Spelling.pointText, Spelling.exponentText]
    · have hexponent : (0 : ℤ) - (padded.drop (padded.length - places)).length = d.exponent := by
        rw [List.length_drop]
        omega
      show ((valueFrom 0 (padded.take _ ++ padded.drop _) : ℕ) : ℚ) *
        10 ^ ((0 : ℤ) - (padded.drop (padded.length - places)).length) = d.digits * 10 ^ d.exponent
      rw [List.take_append_drop, hvalue, hexponent]

/-- So does a text with an exponent. -/
theorem exists_renderScientific (d : Decimal) : ∃ s : Spelling,
    (renderScientific d).toList = s.text ∧ s.decimal.value = d.value ∧ s.exponent.isSome := by
  obtain ⟨digit, more, hdigits⟩ : ∃ digit more, Nat.toDigits 10 d.digits = digit :: more :=
    List.exists_cons_of_ne_nil Nat.toDigits_ne_nil
  obtain ⟨-, hall, hvalue⟩ := numeral?_eq_some_iff.mp (numeral?_toDigits 0 d.digits)
  rw [List.replicate_zero, List.nil_append, hdigits] at hall hvalue
  have hdigit : ∀ c ∈ [digit], isDigit c = true :=
    List.forall_mem_singleton.mpr (hall digit List.mem_cons_self)
  have hexponent : d.leadingExponent - more.length = d.exponent := by
    rw [Decimal.leadingExponent, digitCount, hdigits, List.length_cons]
    omega
  have htail : ((if 0 ≤ d.leadingExponent then "e+" else "e-") ++
      decimalText d.leadingExponent.natAbs).toList =
        Spelling.exponentText (some d.leadingExponent) := by
    rw [Spelling.exponentText, decimalText]
    split <;> simp
  unfold renderScientific
  dsimp only
  rw [hdigits]
  cases more with
  | nil =>
    refine ⟨⟨[digit], none, some d.leadingExponent, List.cons_ne_nil _ _, hdigit, ?_⟩, ?_, ?_, rfl⟩
    · simp
    · rw [String.toList_append, htail, String.toList_ofList]
      rfl
    · show ((valueFrom 0 [digit] : ℕ) : ℚ) * 10 ^ (d.leadingExponent - ([] : List Char).length) = _
      rw [hvalue, hexponent]
      rfl
  | cons next more =>
    refine ⟨⟨[digit], some (next :: more), some d.leadingExponent, List.cons_ne_nil _ _, hdigit, ?_⟩,
      ?_, ?_, rfl⟩
    · exact fun c hc => hall c (List.mem_cons_of_mem _ hc)
    · rw [String.toList_append, htail, String.toList_ofList]
      rfl
    · show ((valueFrom 0 (digit :: next :: more) : ℕ) : ℚ) *
        10 ^ (d.leadingExponent - (next :: more).length) = _
      rw [hvalue, hexponent]
      rfl

/-- The text of a double spells its shortest decimal behind the sign, with a fraction or an exponent. -/
theorem exists_render_wire (x : Binary64) : ∃ s : Spelling,
    (wire.render x).toList = (if x.negative then ['-'] else []) ++ s.text ∧
      s.decimal.value = x.shortest.value ∧ (s.fraction.isSome ∨ s.exponent.isSome) := by
  have hsign : (if x.negative then "-" else "").toList = if x.negative then ['-'] else [] := by
    split <;> rfl
  unfold render
  dsimp only
  rw [String.toList_append, hsign]
  by_cases hpositional : wire.positional x.shortest.leadingExponent = true
  · obtain ⟨s, htext, hvalue, hfraction⟩ := exists_renderPositional x.shortest
    exact ⟨s, by rw [if_pos hpositional, htext], hvalue, .inl hfraction⟩
  · obtain ⟨s, htext, hvalue, hexponent⟩ := exists_renderScientific x.shortest
    exact ⟨s, by rw [if_neg hpositional, htext], hvalue, .inr hexponent⟩

end NumberLayout

/-! ## Numbers -/

/-- An integer that is written is read back. -/
theorem signed?_integerText (n : ℤ) : signed? (integerText n).toList = some n := by
  rcases lt_or_ge n 0 with hneg | hnonneg
  · obtain ⟨m, rfl⟩ : ∃ m : ℕ, n = -m := ⟨n.natAbs, by omega⟩
    have hpos : 0 < m := by omega
    have hread : numeral? (Nat.toDigits 10 m) = some m := numeral?_toDigits 0 m
    rw [toList_integerText_neg hpos, signed?_minus, hread]
    rfl
  · obtain ⟨m, rfl⟩ := Int.eq_ofNat_of_zero_le hnonneg
    have hread : numeral? (Nat.toDigits 10 m) = some m := numeral?_toDigits 0 m
    have hhead : ∀ {c : Char}, isDigit c = false → (Nat.toDigits 10 m).head? ≠ some c :=
      fun hc => head?_ne_of_numeral? hread hc
    rw [toList_integerText_of_nonneg, signed?_of_head? (hhead rfl) (hhead rfl), hread]
    rfl

namespace Number

/-- A number is written with the characters of numbers. -/
theorem isNumberChar_text (n : Number) : ∀ c ∈ n.text.toList, isNumberChar c = true := by
  cases n with
  | integer n => exact isNumberChar_of_signed? (signed?_integerText n.val)
  | double x =>
    obtain ⟨s, htext, -, -⟩ := NumberLayout.exists_render_wire x
    intro c hc
    rw [text, htext] at hc
    rcases List.mem_append.mp hc with hc | hc
    · split at hc
      · rw [List.mem_singleton.mp hc]
        decide
      · cases hc
    · exact s.isNumberChar_text c hc

/-- It begins with a digit or a minus sign. -/
theorem exists_text_eq (n : Number) :
    ∃ c cs, n.text.toList = c :: cs ∧ (isDigit c = true ∨ c = '-') := by
  cases n with
  | integer n =>
    have hread : signed? (integerText n.val).toList = some n.val := signed?_integerText n.val
    show ∃ c cs, (integerText n.val).toList = c :: cs ∧ (isDigit c = true ∨ c = '-')
    cases hcs : (integerText n.val).toList with
    | nil =>
      rw [hcs] at hread
      cases hread
    | cons c cs =>
      refine ⟨c, cs, rfl, ?_⟩
      by_cases hminus : c = '-'
      · exact .inr hminus
      · exact .inl (isDigit_of_mem_integerText (by rw [hcs]; exact List.mem_cons_self) hminus)
  | double x =>
    obtain ⟨s, htext, -, -⟩ := NumberLayout.exists_render_wire x
    obtain ⟨c, cs, hhead, hc⟩ := s.exists_text_eq
    rw [text, htext, hhead]
    split
    · exact ⟨'-', c :: cs, rfl, .inr rfl⟩
    · exact ⟨c, cs, rfl, .inl hc⟩

/-- A double is not written as an integer is: it has a point or an exponent. -/
theorem text_integer_ne (n : WireInt) (x : Binary64) : (integer n).text ≠ (double x).text := by
  intro heq
  obtain ⟨s, htext, -, hparts⟩ := NumberLayout.exists_render_wire x
  have hplain : ∀ c ∈ s.text, c ≠ '-' → isDigit c = true := by
    intro c hc hminus
    refine isDigit_of_mem_integerText (n := n.val) ?_ hminus
    show c ∈ (integer n).text.toList
    rw [heq, text, htext]
    exact List.mem_append_right _ hc
  rcases hparts with hfraction | hexponent
  · obtain ⟨digits, hdigits⟩ := Option.isSome_iff_exists.mp hfraction
    have hpoint : isDigit '.' = true :=
      hplain '.' (by simp [Spelling.text, Spelling.pointText, hdigits]) (by decide)
    cases hpoint
  · obtain ⟨exponent, hvalue⟩ := Option.isSome_iff_exists.mp hexponent
    have hletter : isDigit 'e' = true :=
      hplain 'e' (by simp [Spelling.text, Spelling.exponentText, hvalue]) (by decide)
    cases hletter

/-- Doubles with one text are the same. -/
theorem double_eq_of_text {x y : Binary64} (h : (double x).text = (double y).text) : x = y := by
  obtain ⟨s, hs, hsvalue, -⟩ := NumberLayout.exists_render_wire x
  obtain ⟨t, ht, htvalue, -⟩ := NumberLayout.exists_render_wire y
  have hminus : ∀ (u : Spelling) (cs : List Char), '-' :: cs ≠ u.text := by
    intro u cs heq
    obtain ⟨c, _, hhead, hc⟩ := u.exists_text_eq
    rw [hhead] at heq
    cases heq
    cases hc
  have hlist : (if x.negative then ['-'] else []) ++ s.text =
      (if y.negative then ['-'] else []) ++ t.text := by
    rw [← hs, ← ht]
    exact congrArg String.toList h
  have hsplit : x.negative = y.negative ∧ s.text = t.text := by
    cases hx : x.negative <;> cases hy : y.negative
    · simpa [hx, hy] using hlist
    · simp only [hx, hy] at hlist
      exact absurd hlist.symm (hminus s t.text)
    · simp only [hx, hy] at hlist
      exact absurd hlist (hminus t s.text)
    · simpa [hx, hy] using hlist
  obtain ⟨hsign, htext⟩ := hsplit
  have hdecimal : s.decimal = t.decimal := by
    have hread := s.ofText?_text
    rw [htext, t.ofText?_text] at hread
    exact (Option.some.inj hread).symm
  have hmagnitude : x.magnitude = y.magnitude :=
    Binary64.magnitude_eq_of_shortest (by rw [← hsvalue, hdecimal, htvalue])
  cases x
  cases y
  cases hsign
  cases hmagnitude
  rfl

/-- Every number has a text of its own. -/
theorem text_injective : Function.Injective text := by
  intro n k h
  cases n with
  | integer n =>
    cases k with
    | integer k =>
      have hread : signed? (integerText n.val).toList = some k.val := by
        show signed? (integer n).text.toList = some k.val
        rw [h]
        exact signed?_integerText k.val
      rw [signed?_integerText] at hread
      cases n
      cases k
      cases hread
      rfl
    | double y => exact absurd h (text_integer_ne n y)
  | double x =>
    cases k with
    | integer k => exact absurd h.symm (text_integer_ne k x)
    | double y => rw [double_eq_of_text h]

end Number

end RemoteTable
