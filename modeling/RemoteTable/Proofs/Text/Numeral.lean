import Mathlib.Data.Int.Notation
import Mathlib.Data.Nat.Notation
import RemoteTable.Proofs.Text.Cuts
import RemoteTable.Text.Numeral

/-!
# Numerals and the numbers they stand for

The reader of numerals undoes the writer (`numeral?_toDigits`) and takes zeros in front besides. The
writer gives a numeral back that was read if the numeral has no needless zeros
(`toDigits_eq_iff_of_numeral?`), and for integers if there is no plus sign and no negative zero
either (`integerText_eq_iff_of_signed?`). A text with a number between blanks is a `SpelledNat`.
-/

namespace RemoteTable

/-! ## Characters of a class -/

/-- A character of a class is none that does not belong to it. -/
theorem ne_of_class {p : Char → Bool} {c d : Char} (hc : p c = true) (hd : p d = false) : c ≠ d := by
  rintro rfl
  rw [hd] at hc
  cases hc

/-- A text that begins with characters of a class is split behind the last of them. -/
theorem span_append {p : Char → Bool} {cs rest : List Char} (h : ∀ c ∈ cs, p c = true)
    (hrest : ∀ c ∈ rest.head?, p c = false) :
    (cs ++ rest).takeWhile p = cs ∧ (cs ++ rest).dropWhile p = rest := by
  rw [List.takeWhile_append_of_pos h, List.dropWhile_append_of_pos h]
  cases rest with
  | nil => simp
  | cons c rest =>
    have hc : p c = false := hrest c rfl
    simp [hc]

/-! ## Digits -/

theorem isDigit_iff {c : Char} : isDigit c = true ↔ 48 ≤ c.toNat ∧ c.toNat ≤ 57 := by
  show ('0' ≤ c && c ≤ '9') = true ↔ _
  rw [Bool.and_eq_true, decide_eq_true_iff, decide_eq_true_iff]
  exact Iff.rfl

/-- The program's digits are the library's. -/
theorem isDigit_eq (c : Char) : isDigit c = c.isDigit := by
  rw [Bool.eq_iff_iff, isDigit_iff, Char.isDigit_iff_toNat]
  exact Iff.rfl

theorem digitChar_digitValue {c : Char} (h : isDigit c = true) :
    Nat.digitChar (digitValue c) = c := by
  rw [isDigit_iff] at h
  apply Char.toNat_inj.mp
  show (Nat.digitChar (c.toNat - 48)).toNat = c.toNat
  rw [Nat.toNat_digitChar_of_lt_ten (by omega)]
  omega

theorem digitValue_lt {c : Char} (h : isDigit c = true) : digitValue c < 10 := by
  rw [isDigit_iff] at h
  show c.toNat - 48 < 10
  omega

theorem digitValue_eq_zero_iff {c : Char} (h : isDigit c = true) : digitValue c = 0 ↔ c = '0' := by
  constructor
  · intro hzero
    rw [← digitChar_digitValue h, hzero]
    rfl
  · rintro rfl
    rfl

theorem isDigit_of_mem_toDigits {n : ℕ} {c : Char} (h : c ∈ Nat.toDigits 10 n) :
    isDigit c = true := by
  rw [isDigit_eq]
  exact Nat.isDigit_of_mem_toDigits (by decide) (by decide) h

/-- The digits of a number begin with one. -/
theorem exists_toDigits_eq (n : ℕ) : ∃ c cs, Nat.toDigits 10 n = c :: cs ∧ isDigit c = true := by
  obtain ⟨c, cs, hcs⟩ : ∃ c cs, Nat.toDigits 10 n = c :: cs :=
    List.exists_cons_of_ne_nil Nat.toDigits_ne_nil
  have hmem : c ∈ Nat.toDigits 10 n := by
    rw [hcs]
    exact List.mem_cons_self
  exact ⟨c, cs, hcs, isDigit_of_mem_toDigits hmem⟩

/-! ## Values of numerals -/

/-- The program's value of a numeral is the library's. -/
theorem valueFrom_eq (read : ℕ) (cs : List Char) :
    valueFrom read cs = Nat.ofDigitChars 10 cs read := by
  rw [Nat.ofDigitChars_eq_foldl]
  rfl

/-- Numerals are digits, one at least, and stand for their value. -/
theorem numeral?_eq_some_iff {cs : List Char} {n : ℕ} :
    numeral? cs = some n ↔ cs ≠ [] ∧ (∀ c ∈ cs, isDigit c = true) ∧ valueFrom 0 cs = n := by
  have hall : cs.all isDigit = true ↔ ∀ c ∈ cs, isDigit c = true := List.all_eq_true
  unfold numeral?
  rw [← hall]
  cases cs with
  | nil => simp
  | cons c cs => cases (c :: cs).all isDigit <;> simp

/-- A text that is read as a numeral has digits alone. -/
theorem isDigit_of_numeral? {cs : List Char} {n : ℕ} (h : numeral? cs = some n) :
    ∀ c ∈ cs, isDigit c = true :=
  (numeral?_eq_some_iff.mp h).2.1

/-- Numerals begin with digits. -/
theorem head?_ne_of_numeral? {cs : List Char} {n : ℕ} {c : Char} (h : numeral? cs = some n)
    (hc : isDigit c = false) : cs.head? ≠ some c := by
  intro hhead
  have hdigit := isDigit_of_numeral? h c (List.mem_of_head? hhead)
  rw [hc] at hdigit
  cases hdigit

/-- A numeral without a sign is read as a numeral. -/
theorem unsigned?_of_head? {cs : List Char} (h : cs.head? ≠ some '+') :
    unsigned? cs = numeral? cs := by
  unfold unsigned?
  split
  · exact absurd rfl h
  · rfl

/-- The digits of a number are a numeral of this number, also behind zeros. -/
theorem numeral?_toDigits (zeros n : ℕ) :
    numeral? (List.replicate zeros '0' ++ Nat.toDigits 10 n) = some n := by
  rw [numeral?_eq_some_iff]
  refine ⟨?_, ?_, ?_⟩
  · intro h
    exact Nat.toDigits_ne_nil (List.append_eq_nil_iff.mp h).2
  · intro c hc
    rcases List.mem_append.mp hc with hc | hc
    · rw [List.eq_of_mem_replicate hc]
      rfl
    · exact isDigit_of_mem_toDigits hc
  · rw [valueFrom_eq, Nat.ofDigitChars_append, Nat.ofDigitChars_replicate_zero, Nat.mul_zero,
      Nat.ofDigitChars_ten_toDigits]

/-- Digits read behind those of a number other than zero are digits of the number that is read. -/
theorem toDigits_append_eq {read : ℕ} (hread : 0 < read) {cs : List Char}
    (h : ∀ c ∈ cs, isDigit c = true) :
    Nat.toDigits 10 read ++ cs = Nat.toDigits 10 (valueFrom read cs) := by
  induction cs generalizing read with
  | nil => simp [valueFrom]
  | cons c cs ih =>
    have hc : isDigit c = true := h c List.mem_cons_self
    have hstep : Nat.toDigits 10 read ++ [c] = Nat.toDigits 10 (10 * read + digitValue c) := by
      rw [← Nat.toDigits_append_toDigits (by decide) hread (digitValue_lt hc),
        Nat.toDigits_of_lt_base (digitValue_lt hc), digitChar_digitValue hc]
    calc
      Nat.toDigits 10 read ++ c :: cs = (Nat.toDigits 10 read ++ [c]) ++ cs := by simp
      _ = Nat.toDigits 10 (10 * read + digitValue c) ++ cs := by rw [hstep]
      _ = Nat.toDigits 10 (valueFrom read (c :: cs)) :=
        ih (by omega) fun c hc => h c (List.mem_cons_of_mem _ hc)

/-- Only zero is written with a zero in front. -/
theorem eq_zero_of_head?_toDigits {n : ℕ} (h : (Nat.toDigits 10 n).head? = some '0') : n = 0 := by
  induction n using Nat.strongRecOn with
  | ind n ih =>
    rw [Nat.toDigits_eq_if (by decide)] at h
    split at h
    · simpa using h
    · rename_i hlarge
      -- the digit in front is that of the tenth, which is not zero
      rw [List.head?_append, Option.or_of_isSome (by simp [Nat.toDigits_ne_nil])] at h
      have hzero := ih (n / 10) (by omega) h
      omega

/-- A number is written as the numeral it was read from when this is zero's digit alone or has no
zero in front, and in no other case. -/
theorem toDigits_eq_iff_of_numeral? {cs : List Char} {n : ℕ} (h : numeral? cs = some n) :
    Nat.toDigits 10 n = cs ↔ cs = ['0'] ∨ cs.head? ≠ some '0' := by
  obtain ⟨hne, hdigits, rfl⟩ := numeral?_eq_some_iff.mp h
  obtain ⟨c, cs, rfl⟩ := List.exists_cons_of_ne_nil hne
  have hc : isDigit c = true := hdigits c List.mem_cons_self
  have htail : ∀ c ∈ cs, isDigit c = true := fun c hc => hdigits c (List.mem_cons_of_mem _ hc)
  have hvalue : valueFrom 0 (c :: cs) = valueFrom (digitValue c) cs := by
    simp [valueFrom]
  by_cases hzero : digitValue c = 0
  · -- a zero in front is written only if nothing else is
    obtain rfl : c = '0' := (digitValue_eq_zero_iff hc).mp hzero
    constructor
    · intro heq
      have hzero := eq_zero_of_head?_toDigits (by rw [heq]; rfl)
      rw [hzero] at heq
      exact .inl heq.symm
    · rintro (heq | hhead)
      · rw [heq]
        rfl
      · exact absurd rfl hhead
  · have hne : c ≠ '0' := fun heq => hzero ((digitValue_eq_zero_iff hc).mpr heq)
    have hkept := toDigits_append_eq (Nat.pos_of_ne_zero hzero) htail
    rw [Nat.toDigits_of_lt_base (digitValue_lt hc), digitChar_digitValue hc] at hkept
    rw [hvalue, ← hkept]
    simp [hne]

/-! ## Integers -/

/-- Whether a numeral has neither a plus sign nor a needless zero in front; a zero is needless behind
a minus sign. -/
def IsPlainInteger : List Char → Prop
  | '-' :: cs => cs.head? ≠ some '0'
  | '+' :: _ => False
  | cs => cs = ['0'] ∨ cs.head? ≠ some '0'

/-- An integer that is not negative is written as a numeral. -/
theorem toList_integerText_of_nonneg (n : ℕ) : (integerText n).toList = Nat.toDigits 10 n := by
  have h : ¬ (n : ℤ) < 0 := by omega
  simp [integerText, decimalText, h]

theorem toList_integerText_neg {n : ℕ} (h : 0 < n) :
    (integerText (-n)).toList = '-' :: Nat.toDigits 10 n := by
  simp [integerText, decimalText, h]

theorem isDigit_of_mem_integerText {n : ℤ} {c : Char} (h : c ∈ (integerText n).toList)
    (hc : c ≠ '-') : isDigit c = true := by
  unfold integerText at h
  split at h
  · rw [String.toList_append, List.mem_append] at h
    rcases h with h | h
    · exact absurd (by simpa using h) hc
    · exact isDigit_of_mem_toDigits (by simpa [decimalText] using h)
  · exact isDigit_of_mem_toDigits (by simpa [decimalText] using h)

theorem signed?_minus (cs : List Char) :
    signed? ('-' :: cs) = (numeral? cs).map fun m : ℕ => -(m : ℤ) := by
  show Option.map (fun n : ℤ => -n) (numeral? cs >>= fun n => pure (n : ℤ)) = _
  cases numeral? cs <;> rfl

theorem signed?_plus (cs : List Char) : signed? ('+' :: cs) = (numeral? cs).map Int.ofNat := rfl

/-- An integer without a sign is read as a numeral. -/
theorem signed?_of_head? {cs : List Char} (hminus : cs.head? ≠ some '-')
    (hplus : cs.head? ≠ some '+') : signed? cs = (numeral? cs).map Int.ofNat := by
  unfold signed?
  split
  · exact absurd rfl hminus
  · rw [unsigned?_of_head? hplus]

/-- An integer without a sign is plain if no other digit follows a zero in front. -/
theorem isPlainInteger_of_head? {cs : List Char} (hminus : cs.head? ≠ some '-')
    (hplus : cs.head? ≠ some '+') : IsPlainInteger cs ↔ cs = ['0'] ∨ cs.head? ≠ some '0' := by
  unfold IsPlainInteger
  split
  · exact absurd rfl hminus
  · exact absurd rfl hplus
  · rfl

/-- An integer is a numeral behind a minus sign, behind a plus sign or without a sign. -/
theorem signed?_cases {cs : List Char} {n : ℤ} (h : signed? cs = some n) :
    (∃ digits m, cs = '-' :: digits ∧ numeral? digits = some m ∧ n = -m) ∨
      (∃ digits m, cs = '+' :: digits ∧ numeral? digits = some m ∧ n = m) ∨
      (cs.head? ≠ some '-' ∧ cs.head? ≠ some '+' ∧ ∃ m, numeral? cs = some m ∧ n = m) := by
  by_cases hminus : cs.head? = some '-'
  · obtain ⟨digits, rfl⟩ := List.head?_eq_some_iff.mp hminus
    rw [signed?_minus] at h
    obtain ⟨m, hm, rfl⟩ := Option.map_eq_some_iff.mp h
    exact .inl ⟨digits, m, rfl, hm, rfl⟩
  by_cases hplus : cs.head? = some '+'
  · obtain ⟨digits, rfl⟩ := List.head?_eq_some_iff.mp hplus
    rw [signed?_plus] at h
    obtain ⟨m, hm, rfl⟩ := Option.map_eq_some_iff.mp h
    exact .inr (.inl ⟨digits, m, rfl, hm, rfl⟩)
  · rw [signed?_of_head? hminus hplus] at h
    obtain ⟨m, hm, rfl⟩ := Option.map_eq_some_iff.mp h
    exact .inr (.inr ⟨hminus, hplus, m, hm, rfl⟩)

/-- An integer of 64 bits is read as an integer. -/
theorem signed?_of_signed64? {cs : List Char} {n : ℤ} (h : signed64? cs = some n) :
    signed? cs = some n :=
  (Option.filter_eq_some_iff.mp h).1

/-- An integer is written as the numeral it was read from when this is plain, and in no other
case. -/
theorem integerText_eq_iff_of_signed? {cs : List Char} {n : ℤ} (h : signed? cs = some n) :
    (integerText n).toList = cs ↔ IsPlainInteger cs := by
  rcases signed?_cases h with ⟨digits, m, rfl, hm, rfl⟩ | ⟨digits, m, rfl, hm, rfl⟩ |
    ⟨hminus, hplus, m, hm, rfl⟩
  · have hplain := toDigits_eq_iff_of_numeral? hm
    show _ ↔ digits.head? ≠ some '0'
    rcases Nat.eq_zero_or_pos m with rfl | hpos
    · -- zero is written without a sign, and its numeral begins with a zero
      have hzero : digits.head? = some '0' :=
        Decidable.byContradiction fun hhead => hhead (hplain.mpr (.inr hhead) ▸ rfl)
      simp [hzero, integerText, decimalText]
    · have hsingle : digits ≠ ['0'] := by
        rintro rfl
        obtain rfl : 0 = m := Option.some.inj hm
        cases hpos
      rw [toList_integerText_neg hpos, List.cons.injEq, hplain]
      simp [hsingle]
  · show (integerText (m : ℤ)).toList = '+' :: digits ↔ False
    rw [toList_integerText_of_nonneg, iff_false]
    intro heq
    have hhead : (Nat.toDigits 10 m).head? = some '+' := by rw [heq]; rfl
    exact head?_ne_of_numeral? (numeral?_toDigits 0 m) (by decide) hhead
  · rw [toList_integerText_of_nonneg, isPlainInteger_of_head? hminus hplus,
      toDigits_eq_iff_of_numeral? hm]

/-! ## Numbers between blanks -/

theorem isBlank_of_isDigit {c : Char} (h : isDigit c = true) : isBlank c = false := by
  rw [isDigit_iff] at h
  simp only [isBlank, Bool.or_eq_false_iff, Bool.and_eq_false_iff, decide_eq_false_iff_not,
    beq_eq_false_iff_ne]
  omega

/-- The digits of a number, possibly behind zeros and a plus sign, with blanks around. -/
inductive SpelledNat (n : ℕ) : List Char → Prop
  /-- Without a sign. -/
  | unsigned (front back : List Char) (zeros : ℕ) (hfront : ∀ c ∈ front, isBlank c = true)
      (hback : ∀ c ∈ back, isBlank c = true) :
      SpelledNat n (front ++ (List.replicate zeros '0' ++ Nat.toDigits 10 n) ++ back)
  /-- With a plus sign. -/
  | plus (front back : List Char) (zeros : ℕ) (hfront : ∀ c ∈ front, isBlank c = true)
      (hback : ∀ c ∈ back, isBlank c = true) :
      SpelledNat n (front ++ '+' :: (List.replicate zeros '0' ++ Nat.toDigits 10 n) ++ back)

/-- A number that is spelled is read, whatever its size. -/
theorem unsigned?_of_spelledNat {n : ℕ} {cs : List Char} (h : SpelledNat n cs) :
    unsigned? (trimBlanks cs) = some n := by
  have hread : ∀ zeros, numeral? (List.replicate zeros '0' ++ Nat.toDigits 10 n) = some n :=
    fun zeros => numeral?_toDigits zeros n
  have hblank : ∀ zeros, ∀ c ∈ List.replicate zeros '0' ++ Nat.toDigits 10 n,
      isBlank c = false := fun zeros c hc =>
    isBlank_of_isDigit (isDigit_of_numeral? (hread zeros) c hc)
  cases h with
  | unsigned front back zeros hfront hback =>
    rw [trimBlanks_append hfront (isTrimmed_of_forall (hblank zeros)) hback,
      unsigned?_of_head? (head?_ne_of_numeral? (hread zeros) (by decide)), hread zeros]
  | plus front back zeros hfront hback =>
    have hsign : ∀ c ∈ '+' :: (List.replicate zeros '0' ++ Nat.toDigits 10 n),
        isBlank c = false := by
      intro c hc
      rcases List.mem_cons.mp hc with rfl | hc
      · decide
      · exact hblank zeros c hc
    rw [trimBlanks_append hfront (isTrimmed_of_forall hsign) hback, unsigned?, hread zeros]

/-- A text spells one number at most. -/
theorem SpelledNat.unique {n m : ℕ} {cs : List Char} (hn : SpelledNat n cs)
    (hm : SpelledNat m cs) : n = m := by
  have hread := unsigned?_of_spelledNat hn
  rw [unsigned?_of_spelledNat hm] at hread
  exact (Option.some.inj hread).symm

/-- A number that is spelled and fits in 64 bits is read. -/
theorem unsigned64?_of_spelledNat {n : ℕ} {cs : List Char} (h : SpelledNat n cs)
    (hn : n < unsignedEnd) : unsigned64? (trimBlanks cs) = some n := by
  rw [unsigned64?, unsigned?_of_spelledNat h]
  simp [hn]

/-- A numeral is the digits of its number behind zeros. -/
theorem exists_eq_of_numeral? {cs : List Char} {n : ℕ} (h : numeral? cs = some n) :
    ∃ zeros, cs = List.replicate zeros '0' ++ Nat.toDigits 10 n := by
  induction cs with
  | nil => cases h
  | cons c cs ih =>
    by_cases hplain : c :: cs = ['0'] ∨ (c :: cs).head? ≠ some '0'
    · exact ⟨0, ((toDigits_eq_iff_of_numeral? h).mpr hplain).symm⟩
    · -- a needless zero in front is dropped
      simp only [List.head?_cons, ne_eq, Option.some.injEq, not_or, Decidable.not_not] at hplain
      obtain ⟨hmore, rfl⟩ := hplain
      obtain ⟨-, hdigits, hvalue⟩ := numeral?_eq_some_iff.mp h
      have hrest : numeral? cs = some n := by
        refine numeral?_eq_some_iff.mpr
          ⟨fun hnil => hmore (by rw [hnil]), fun c hc => hdigits c (List.mem_cons_of_mem _ hc), ?_⟩
        rwa [valueFrom, List.foldl_cons] at hvalue
      obtain ⟨zeros, hcs⟩ := ih hrest
      refine ⟨zeros + 1, ?_⟩
      rw [List.replicate_succ, List.cons_append, ← hcs]

/-- Only a number that is spelled and fits in 64 bits is read. -/
theorem spelledNat_of_unsigned64? {cs : List Char} {n : ℕ}
    (h : unsigned64? (trimBlanks cs) = some n) : SpelledNat n cs ∧ n < unsignedEnd := by
  obtain ⟨hread, hlt⟩ := Option.filter_eq_some_iff.mp h
  refine ⟨?_, of_decide_eq_true hlt⟩
  obtain ⟨front, back, hcs, hfront, hback⟩ := exists_trimBlanks cs
  rw [hcs]
  by_cases hplus : (trimBlanks cs).head? = some '+'
  · obtain ⟨digits, hdigits⟩ := List.head?_eq_some_iff.mp hplus
    rw [hdigits] at hread ⊢
    obtain ⟨zeros, rfl⟩ := exists_eq_of_numeral? hread
    exact .plus front back zeros hfront hback
  · rw [unsigned?_of_head? hplus] at hread
    obtain ⟨zeros, hzeros⟩ := exists_eq_of_numeral? hread
    rw [hzeros]
    exact .unsigned front back zeros hfront hback

end RemoteTable
