import Mathlib.Data.List.Basic
import Mathlib.Data.String.Basic
import Mathlib.Tactic.SplitIfs

/-!
# The order of texts and of their bytes

Texts are compared character by character. That is how their bytes are compared as well
(`utf8Bytes_lt_iff`): a character of more bytes has the greater first byte, and of two characters with
as many bytes the greater one has the greater byte where they first differ.
-/

namespace RemoteTable

/-- The bytes of a text in UTF-8. -/
def utf8Bytes (s : String) : List UInt8 :=
  s.toUTF8.data.toList

/-- The bytes of a text are those of its characters, one behind the other. -/
theorem utf8Bytes_eq (s : String) : utf8Bytes s = s.toList.flatMap String.utf8EncodeChar := by
  rw [utf8Bytes, String.toUTF8_eq_toByteArray, ← String.utf8Encode_toList, List.utf8Encode,
    List.toList_data_toByteArray]

/-! ## Characters -/

/-- Bytes are compared as the numbers that they hold. -/
theorem byte_lt_byte_iff {a b : ℕ} (ha : a < 256) (hb : b < 256) :
    UInt8.ofNat a < UInt8.ofNat b ↔ a < b := by
  rw [UInt8.lt_iff_toNat_lt, UInt8.toNat_ofNat', UInt8.toNat_ofNat', Nat.mod_eq_of_lt ha,
    Nat.mod_eq_of_lt hb]

theorem byte_inj {a b : ℕ} (ha : a < 256) (hb : b < 256) :
    UInt8.ofNat a = UInt8.ofNat b ↔ a = b := by
  rw [← UInt8.toNat_inj, UInt8.toNat_ofNat', UInt8.toNat_ofNat', Nat.mod_eq_of_lt ha,
    Nat.mod_eq_of_lt hb]

/-- Numbers are compared by their parts of six bits, from the front. -/
theorem sextets_of_lt {v w : ℕ} (h : v < w) :
    v / 262144 < w / 262144 ∨ v / 262144 = w / 262144 ∧
      (v / 4096 % 64 < w / 4096 % 64 ∨ v / 4096 % 64 = w / 4096 % 64 ∧
        (v / 64 % 64 < w / 64 % 64 ∨ v / 64 % 64 = w / 64 % 64 ∧ v % 64 < w % 64)) := by
  have hlast : ∀ a b : ℕ, a < b → a / 64 < b / 64 ∨ a / 64 = b / 64 ∧ a % 64 < b % 64 := by
    intro a b hab
    omega
  have hdiv : ∀ a : ℕ, a / 4096 = a / 64 / 64 ∧ a / 262144 = a / 64 / 64 / 64 := by
    intro a
    simp only [Nat.div_div_eq_div_mul, and_self]
  rw [(hdiv v).1, (hdiv v).2, (hdiv w).1, (hdiv w).2]
  rcases hlast v w h with h | ⟨hsame, h⟩
  · rcases hlast _ _ h with h | ⟨hsame, h⟩
    · rcases hlast _ _ h with h | ⟨hsame, h⟩
      · exact .inl h
      · exact .inr ⟨hsame, .inl h⟩
    · exact .inr ⟨by rw [hsame], .inr ⟨by rw [hsame], .inl h⟩⟩
  · exact .inr ⟨by rw [hsame], .inr ⟨by rw [hsame], .inr ⟨by rw [hsame], h⟩⟩⟩

/-- The bytes of a character are less than those of a greater one, whatever stands behind them. -/
theorem utf8EncodeChar_append_lt {c d : Char} (h : c < d) (xs ys : List UInt8) :
    String.utf8EncodeChar c ++ xs < String.utf8EncodeChar d ++ ys := by
  have hlt : c.val.toNat < d.val.toNat := h
  have hend : d.val.toNat < 0x110000 := by
    rcases d.valid with h | h <;> omega
  have hsextets := sextets_of_lt hlt
  unfold String.utf8EncodeChar
  -- one case for each number of bytes of either character
  dsimp only
  split_ifs <;>
    simp (disch := omega) only [List.cons_append, List.nil_append, List.cons_lt_cons_iff,
      byte_lt_byte_iff, byte_inj, Nat.mod_eq_of_lt] <;>
    omega

/-! ## Texts -/

/-- Lists of characters are compared as their bytes: the first difference decides in both. -/
theorem flatMap_utf8EncodeChar_lt {cs ds : List Char} (h : cs < ds) :
    cs.flatMap String.utf8EncodeChar < ds.flatMap String.utf8EncodeChar := by
  induction cs generalizing ds with
  | nil =>
    cases ds with
    | nil => cases h
    | cons d ds =>
      have hne : String.utf8EncodeChar d ≠ [] := String.utf8EncodeChar_ne_nil
      obtain ⟨b, bs, hbytes⟩ := List.exists_cons_of_ne_nil hne
      rw [List.flatMap_cons, hbytes]
      exact List.nil_lt_cons _ _
  | cons c cs ih =>
    cases ds with
    | nil => cases h
    | cons d ds =>
      rw [List.flatMap_cons, List.flatMap_cons]
      rcases List.cons_lt_cons_iff.mp h with hcd | ⟨rfl, hrest⟩
      · exact utf8EncodeChar_append_lt hcd _ _
      · exact List.append_left_lt (ih hrest)

/-- A smaller text has the smaller bytes. -/
theorem utf8Bytes_lt {s t : String} (h : s < t) : utf8Bytes s < utf8Bytes t := by
  rw [utf8Bytes_eq, utf8Bytes_eq]
  exact flatMap_utf8EncodeChar_lt (String.lt_iff_toList_lt.mp h)

/-- The order of texts is that of their bytes. -/
theorem utf8Bytes_lt_iff {s t : String} : utf8Bytes s < utf8Bytes t ↔ s < t := by
  refine ⟨fun h => ?_, utf8Bytes_lt⟩
  rcases lt_trichotomy s t with hlt | rfl | hgt
  · exact hlt
  · exact absurd h (List.lt_irrefl _)
  · exact absurd h (List.lt_asymm (utf8Bytes_lt hgt))

end RemoteTable
