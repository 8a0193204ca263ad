import RemoteTable.Json.Reader
import RemoteTable.Json.Printer
import RemoteTable.Proofs.Number.Text

/-!
# Compact texts are uniquely readable

The text of a value tells the value, also when more text follows it (`Json.render_append_inj`): the first
character tells what kind of value it is, a string ends at its quote (`Json.readString_quote`), a number at
the first character that occurs in no number, and a sequence or an object at the bracket behind its last
part. So a list of members has a text of its own (`Json.renderMembers_injective`).
-/

namespace RemoteTable

namespace Json

/-! ## Strings -/

/-- The two hexadecimal digits of a control character. -/
theorem hexValue?_hexDigit : ∀ n < 32,
    hexValue? (hexDigit (n / 16)) = some (n / 16) ∧ hexValue? (hexDigit (n % 16)) = some (n % 16) := by
  decide

/-- A code unit of a control character is read as the character. -/
theorem readString_unit {c : Char} (hc : c.toNat < 32) (read more : List Char) :
    readString none (.unit 4 0) read
        ('0' :: '0' :: hexDigit (c.toNat / 16) :: hexDigit (c.toNat % 16) :: more) =
      readString none .plain (c :: read) more := by
  obtain ⟨hhigh, hlow⟩ := hexValue?_hexDigit c.toNat hc
  have hzero : hexValue? '0' = some 0 := rfl
  have hvalue : 16 * (c.toNat / 16) + c.toNat % 16 = c.toNat := by omega
  have hfirst : isHighSurrogate c.toNat = false := by
    simp only [isHighSurrogate, Bool.and_eq_false_iff, decide_eq_false_iff_not]
    omega
  have hsecond : isLowSurrogate c.toNat = false := by
    simp only [isLowSurrogate, Bool.and_eq_false_iff, decide_eq_false_iff_not]
    omega
  simp [readString, hzero, hhigh, hlow, hvalue, hfirst, hsecond]

/-- The form of a character is read as the character. -/
theorem readString_escapeChar (c : Char) (read more : List Char) :
    readString none .plain read (escapeChar c ++ more) = readString none .plain (c :: read) more := by
  have hletter : ∀ {letter : Char}, letter ≠ 'u' → unescape? letter = some c →
      readString none .plain read ('\\' :: letter :: more) = readString none .plain (c :: read) more := by
    intro letter hunit hplain
    simp [readString, hunit, hplain]
  unfold escapeChar
  split
  case isTrue h => exact hletter (by decide) (by rw [h]; rfl)
  rename_i hquote
  split
  case isTrue h => exact hletter (by decide) (by rw [h]; rfl)
  rename_i hbackslash
  split
  case isTrue h => exact hletter (by decide) (by rw [h]; rfl)
  split
  case isTrue h => exact hletter (by decide) (by rw [h]; rfl)
  split
  case isTrue h => exact hletter (by decide) (by rw [h]; rfl)
  split
  case isTrue h => exact hletter (by decide) (by rw [h]; rfl)
  split
  case isTrue h => exact hletter (by decide) (by rw [h]; rfl)
  split
  case isTrue hcontrol =>
    have hlt : c.toNat < 32 := hcontrol
    have hstep := readString_unit hlt read more
    simpa [readString] using hstep
  case isFalse hplain => simp [readString, hquote, hbackslash, hplain]

/-- Escaped characters are read back up to the quote that ends them. -/
theorem readString_flatMap_escapeChar (cs read rest : List Char) :
    readString none .plain read (cs.flatMap escapeChar ++ '"' :: rest) =
      some (String.ofList (read.reverse ++ cs), rest) := by
  induction cs generalizing read with
  | nil => simp [readString]
  | cons c cs ih =>
    rw [List.flatMap_cons, List.append_assoc, readString_escapeChar, ih]
    simp

/-- A quoted text is its escaped characters between two quotes. -/
theorem toList_quote (s : String) : (quote s).toList = '"' :: (s.toList.flatMap escapeChar ++ ['"']) := by
  rw [quote, String.toList_ofList]
  rfl

/-- A text in quotes is read up to the closing quote, whatever follows. -/
theorem readString_quote (s : String) (rest : List Char) : ∃ body,
    (quote s).toList ++ rest = '"' :: body ∧ readString none .plain [] body = some (s, rest) := by
  refine ⟨s.toList.flatMap escapeChar ++ '"' :: rest, ?_, ?_⟩
  · rw [toList_quote]
    simp
  · rw [readString_flatMap_escapeChar, List.reverse_nil, List.nil_append, String.ofList_toList]

/-- A quoted text ends where its quote does, whatever stands behind it. -/
theorem quote_append_inj {s t : String} {rest rest' : List Char}
    (h : (quote s).toList ++ rest = (quote t).toList ++ rest') : s = t ∧ rest = rest' := by
  obtain ⟨body, hbody, hread⟩ := readString_quote s rest
  obtain ⟨body', hbody', hread'⟩ := readString_quote t rest'
  rw [hbody, hbody'] at h
  cases h
  rw [hread] at hread'
  cases hread'
  exact ⟨rfl, rfl⟩

/-! ## First characters -/

/-- The kinds of values that begin differently. -/
inductive Kind where
  /-- The value `null`. -/
  | null
  /-- A truth value. -/
  | boolean (b : Bool)
  /-- A number. -/
  | number
  /-- A text. -/
  | string
  /-- A sequence. -/
  | array
  /-- Named members. -/
  | object
deriving DecidableEq

/-- The kind of a value. -/
def kind : Json → Kind
  | null => .null
  | boolean b => .boolean b
  | number _ => .number
  | string _ => .string
  | array _ => .array
  | object _ => .object

/-- The kind of the values whose texts begin with a character. -/
def kindOf? (c : Char) : Option Kind :=
  if c = 'n' then some .null
  else if c = 't' then some (.boolean true)
  else if c = 'f' then some (.boolean false)
  else if c = '"' then some .string
  else if c = '[' then some .array
  else if c = '\x7b' then some .object
  else if isDigit c ∨ c = '-' then some .number
  else none

/-- The first character of a text tells the kind of the value. -/
theorem exists_render_eq (v : Json) :
    ∃ c cs, (render v).toList = c :: cs ∧ kindOf? c = some v.kind := by
  cases v with
  | null => exact ⟨'n', "ull".toList, rfl, rfl⟩
  | boolean b =>
    cases b with
    | true => exact ⟨'t', "rue".toList, rfl, rfl⟩
    | false => exact ⟨'f', "alse".toList, rfl, rfl⟩
  | number n =>
    obtain ⟨c, cs, htext, hc⟩ := n.exists_text_eq
    refine ⟨c, cs, htext, ?_⟩
    have hne : ∀ d : Char, isDigit d = false → d ≠ '-' → c ≠ d := by
      rintro d hd hminus rfl
      rcases hc with hc | hc
      · rw [hd] at hc
        cases hc
      · exact hminus hc
    unfold kindOf?
    rw [if_neg (hne 'n' rfl (by decide)), if_neg (hne 't' rfl (by decide)),
      if_neg (hne 'f' rfl (by decide)), if_neg (hne '"' rfl (by decide)),
      if_neg (hne '[' rfl (by decide)), if_neg (hne '\x7b' rfl (by decide)), if_pos hc]
    rfl
  | string s => exact ⟨'"', s.toList.flatMap escapeChar ++ ['"'], toList_quote s, rfl⟩
  | array items =>
    refine ⟨'[', (renderItems items).toList ++ [']'], ?_, rfl⟩
    rw [render]
    simp
  | object members =>
    refine ⟨'\x7b', (renderMembers members).toList ++ ['\x7d'], ?_, rfl⟩
    rw [render]
    simp

/-- The first character of a printed value tells its kind. -/
theorem kind_eq_of_append_eq {v w : Json} {rest rest' : List Char}
    (h : (render v).toList ++ rest = (render w).toList ++ rest') : v.kind = w.kind := by
  obtain ⟨c, cs, hv, hc⟩ := v.exists_render_eq
  obtain ⟨d, ds, hw, hd⟩ := w.exists_render_eq
  rw [hv, hw] at h
  obtain ⟨rfl, -⟩ := List.cons.inj h
  rw [hc] at hd
  exact Option.some.inj hd

/-- No text begins with a comma or a closing bracket. -/
theorem render_append_ne {c : Char} (hc : kindOf? c = none) (v : Json) (rest rest' : List Char) :
    (render v).toList ++ rest ≠ c :: rest' := by
  intro h
  obtain ⟨d, ds, hv, hd⟩ := v.exists_render_eq
  rw [hv] at h
  cases h
  rw [hc] at hd
  cases hd

/-! ## Texts in a row -/

/-- The text of the elements behind the first one. -/
def itemsTail : List Json → List Char
  | [] => []
  | item :: items => ',' :: (renderItems (item :: items)).toList

/-- The text of the members behind the first one. -/
def membersTail : List (String × Json) → List Char
  | [] => []
  | member :: members => ',' :: (renderMembers (member :: members)).toList

/-- Elements are printed as the first one and a tail. -/
theorem toList_renderItems_cons (item : Json) (items : List Json) :
    (renderItems (item :: items)).toList = (render item).toList ++ itemsTail items := by
  cases items with
  | nil => simp [renderItems, itemsTail]
  | cons next items => simp [renderItems, itemsTail]

theorem toList_renderMembers_cons (name : String) (value : Json) (members : List (String × Json)) :
    (renderMembers ((name, value) :: members)).toList =
      (quote name).toList ++ ':' :: ((render value).toList ++ membersTail members) := by
  cases members with
  | nil => simp [renderMembers, membersTail]
  | cons next members => simp [renderMembers, membersTail]

/-- Whether a text cannot go on with the number before it. -/
def EndsNumber (rest : List Char) : Prop :=
  ∀ c ∈ rest.head?, isNumberChar c = false

/-- No number goes on behind an element of a sequence. -/
theorem endsNumber_itemsTail (items : List Json) (rest : List Char) :
    EndsNumber (itemsTail items ++ ']' :: rest) := by
  cases items <;> simp [EndsNumber, itemsTail, isNumberChar, isDigit]

theorem endsNumber_membersTail (members : List (String × Json)) (rest : List Char) :
    EndsNumber (membersTail members ++ '\x7d' :: rest) := by
  cases members <;> simp [EndsNumber, membersTail, isNumberChar, isDigit]

/-- A number is read up to the first character that occurs in no number. -/
theorem text_append_inj {n k : Number} {rest rest' : List Char} (hrest : EndsNumber rest)
    (hrest' : EndsNumber rest') (h : n.text.toList ++ rest = k.text.toList ++ rest') :
    n = k ∧ rest = rest' := by
  obtain ⟨htake, hdrop⟩ := span_append n.isNumberChar_text hrest
  obtain ⟨htake', hdrop'⟩ := span_append k.isNumberChar_text hrest'
  rw [h] at htake hdrop
  constructor
  · exact Number.text_injective (String.toList_inj.mp (htake.symm.trans htake'))
  · exact hdrop.symm.trans hdrop'

/-! ## Unique readability -/

mutual

/-- The text of a value tells the value and where it ends, by recursion over the value. -/
theorem render_append_inj : ∀ (v w : Json) (rest rest' : List Char), EndsNumber rest →
    EndsNumber rest' → (render v).toList ++ rest = (render w).toList ++ rest' → v = w ∧ rest = rest'
  | null => by
    intro w rest rest' _ _ h
    have hkind := kind_eq_of_append_eq h
    cases w with
    | null => exact ⟨rfl, List.append_cancel_left h⟩
    | _ => cases hkind
  | boolean b => by
    intro w rest rest' _ _ h
    have hkind := kind_eq_of_append_eq h
    cases w with
    | boolean b' =>
      cases hkind
      exact ⟨rfl, List.append_cancel_left h⟩
    | _ => cases hkind
  | number n => by
    intro w rest rest' hrest hrest' h
    have hkind := kind_eq_of_append_eq h
    cases w with
    | number k =>
      rw [render, render] at h
      obtain ⟨rfl, hends⟩ := text_append_inj hrest hrest' h
      exact ⟨rfl, hends⟩
    | _ => cases hkind
  | string s => by
    intro w rest rest' _ _ h
    have hkind := kind_eq_of_append_eq h
    cases w with
    | string t =>
      rw [render, render] at h
      obtain ⟨rfl, hends⟩ := quote_append_inj h
      exact ⟨rfl, hends⟩
    | _ => cases hkind
  | array items => by
    intro w rest rest' _ _ h
    have hkind := kind_eq_of_append_eq h
    cases w with
    | array items' =>
      have hinside : (renderItems items).toList ++ ']' :: rest =
          (renderItems items').toList ++ ']' :: rest' := by
        simpa [render] using h
      obtain ⟨rfl, hends⟩ := renderItems_append_inj items hinside
      exact ⟨rfl, hends⟩
    | _ => cases hkind
  | object members => by
    intro w rest rest' _ _ h
    have hkind := kind_eq_of_append_eq h
    cases w with
    | object members' =>
      have hinside : (renderMembers members).toList ++ '\x7d' :: rest =
          (renderMembers members').toList ++ '\x7d' :: rest' := by
        simpa [render] using h
      obtain ⟨rfl, hends⟩ := renderMembers_append_inj members hinside
      exact ⟨rfl, hends⟩
    | _ => cases hkind

/-- The elements of a sequence are told by the text up to the closing bracket. -/
theorem renderItems_append_inj : ∀ (items : List Json) {items' : List Json} {rest rest' : List Char},
    (renderItems items).toList ++ ']' :: rest = (renderItems items').toList ++ ']' :: rest' →
      items = items' ∧ rest = rest'
  | [], [], rest, rest', h => ⟨rfl, (List.cons.inj h).2⟩
  | [], item' :: items', rest, rest', h => by
    rw [toList_renderItems_cons, List.append_assoc] at h
    exact absurd h.symm (render_append_ne rfl item' _ _)
  | item :: items, [], rest, rest', h => by
    rw [toList_renderItems_cons, List.append_assoc] at h
    exact absurd h (render_append_ne rfl item _ _)
  | item :: items, item' :: items', rest, rest', h => by
    rw [toList_renderItems_cons, toList_renderItems_cons, List.append_assoc, List.append_assoc] at h
    obtain ⟨rfl, htail⟩ := render_append_inj item _ _ _ (endsNumber_itemsTail items rest)
      (endsNumber_itemsTail items' rest') h
    cases items with
    | nil =>
      cases items' with
      | nil => exact ⟨rfl, (List.cons.inj htail).2⟩
      | cons => cases (List.cons.inj htail).1
    | cons next items =>
      cases items' with
      | nil => cases (List.cons.inj htail).1
      | cons next' items' =>
        obtain ⟨hitems, hends⟩ := renderItems_append_inj (next :: items) (List.cons.inj htail).2
        exact ⟨by rw [hitems], hends⟩

/-- So are the members of an object. -/
theorem renderMembers_append_inj : ∀ (members : List (String × Json))
    {members' : List (String × Json)} {rest rest' : List Char},
    (renderMembers members).toList ++ '\x7d' :: rest =
        (renderMembers members').toList ++ '\x7d' :: rest' →
      members = members' ∧ rest = rest'
  | [], [], rest, rest', h => ⟨rfl, (List.cons.inj h).2⟩
  | [], (name', value') :: members', rest, rest', h => by
    rw [toList_renderMembers_cons, toList_quote] at h
    cases (List.cons.inj h).1
  | (name, value) :: members, [], rest, rest', h => by
    rw [toList_renderMembers_cons, toList_quote] at h
    cases (List.cons.inj h).1
  | (name, value) :: members, (name', value') :: members', rest, rest', h => by
    simp only [toList_renderMembers_cons, List.append_assoc, List.cons_append] at h
    obtain ⟨rfl, hvalue⟩ := quote_append_inj h
    obtain ⟨rfl, htail⟩ := render_append_inj value _ _ _ (endsNumber_membersTail members rest)
      (endsNumber_membersTail members' rest') (List.cons.inj hvalue).2
    cases members with
    | nil =>
      cases members' with
      | nil => exact ⟨rfl, (List.cons.inj htail).2⟩
      | cons => cases (List.cons.inj htail).1
    | cons next members =>
      cases members' with
      | nil => cases (List.cons.inj htail).1
      | cons next' members' =>
        obtain ⟨hmembers, hends⟩ :=
          renderMembers_append_inj (next :: members) (List.cons.inj htail).2
        exact ⟨by rw [hmembers], hends⟩

end

/-- Lists of members with one text are the same. -/
theorem renderMembers_injective : Function.Injective renderMembers := by
  intro members members' h
  have hclosed : (renderMembers members).toList ++ '\x7d' :: [] =
      (renderMembers members').toList ++ '\x7d' :: [] := by rw [h]
  exact (renderMembers_append_inj members hclosed).1

end Json

end RemoteTable
