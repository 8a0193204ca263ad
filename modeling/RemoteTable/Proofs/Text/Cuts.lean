import RemoteTable.Text.Numeral

/-!
# Texts that are cut

A text is trimmed if it neither begins nor ends with a blank (`IsTrimmed`). Every text is a trimmed one
with blanks around it, in one way only, and trimming finds it (`trimBlanks_eq_iff`). Nothing is left of
a text if and only if all of it is blank (`trimBlanks_eq_nil_iff`).

A text is split at every separator, and empty parts count. Whatever is defined so by recursion is the
splitting of lists (`eq_splitOn`). The parts are free of separators (`notMem_of_mem_splitOn`).
-/

namespace RemoteTable

/-! ## Trimmed texts -/

section Trimmed

variable {cs core front back : List Char}

/-- Whether a text neither begins nor ends with a blank. -/
structure IsTrimmed (cs : List Char) : Prop where
  /-- It does not begin with one. -/
  first : ∀ c ∈ cs.head?, isBlank c = false
  /-- It does not end with one. -/
  last : ∀ c ∈ cs.getLast?, isBlank c = false

/-- A text is a trimmed one with blanks around it. -/
structure TrimsTo (cs core : List Char) : Prop where
  /-- The blanks are not part of it. -/
  trimmed : IsTrimmed core
  /-- There is nothing else around it. -/
  around : ∃ front back, cs = front ++ core ++ back ∧ (∀ c ∈ front, isBlank c = true) ∧
    ∀ c ∈ back, isBlank c = true

/-- A text without blanks has none at its ends. -/
theorem isTrimmed_of_forall (h : ∀ c ∈ cs, isBlank c = false) : IsTrimmed cs where
  first c hc := h c (List.mem_of_mem_head? hc)
  last c hc := h c (List.mem_of_mem_getLast? hc)

theorem IsTrimmed.reverse (h : IsTrimmed cs) : IsTrimmed cs.reverse where
  first c hc := h.last c (by rwa [List.head?_reverse] at hc)
  last c hc := h.first c (by rwa [List.getLast?_reverse] at hc)

/-! ## Blanks in front -/

/-- Blanks in front are taken off. -/
theorem trimFront_append (h : ∀ c ∈ front, isBlank c = true) (cs : List Char) :
    trimFront (front ++ cs) = trimFront cs :=
  List.dropWhile_append_of_pos h

/-- Blanks behind a trimmed text that begins with something are not touched from the front. -/
theorem trimFront_append_of_isTrimmed (hne : core ≠ []) (h : IsTrimmed core) (back : List Char) :
    trimFront (core ++ back) = core ++ back := by
  obtain ⟨c, core, rfl⟩ := List.exists_cons_of_ne_nil hne
  exact List.dropWhile_cons_of_neg (by simp [h.first c rfl])

/-! ## Blanks at both ends -/

/-- Blanks around a trimmed text are what is cut off. -/
theorem trimBlanks_append (hfront : ∀ c ∈ front, isBlank c = true) (hcore : IsTrimmed core)
    (hback : ∀ c ∈ back, isBlank c = true) : trimBlanks (front ++ core ++ back) = core := by
  have hback' : ∀ c ∈ back.reverse, isBlank c = true := fun c hc => hback c (List.mem_reverse.mp hc)
  rw [trimBlanks, List.append_assoc, trimFront_append hfront]
  by_cases hne : core = []
  · have hnone := trimFront_append hback []
    rw [List.append_nil] at hnone
    rw [hne, List.nil_append, hnone]
    rfl
  · have hrest := trimFront_append_of_isTrimmed (mt List.reverse_eq_nil_iff.mp hne) hcore.reverse []
    rw [List.append_nil] at hrest
    rw [trimFront_append_of_isTrimmed hne hcore, List.reverse_append, trimFront_append hback', hrest,
      List.reverse_reverse]

/-- What is cut off are blanks. -/
theorem exists_trimBlanks (cs : List Char) :
    ∃ front back, cs = front ++ trimBlanks cs ++ back ∧ (∀ c ∈ front, isBlank c = true) ∧
      ∀ c ∈ back, isBlank c = true := by
  have hblank : ∀ l : List Char, ∀ c ∈ l.takeWhile isBlank, isBlank c = true :=
    fun _ => List.all_eq_true.mp List.all_takeWhile
  refine ⟨cs.takeWhile isBlank, ((trimFront cs).reverse.takeWhile isBlank).reverse, ?_, hblank cs,
    fun c hc => hblank _ c (List.mem_reverse.mp hc)⟩
  have hback : (trimFront (trimFront cs).reverse).reverse ++
      ((trimFront cs).reverse.takeWhile isBlank).reverse = trimFront cs := by
    rw [← List.reverse_append]
    exact (congrArg List.reverse (List.takeWhile_append_dropWhile)).trans (List.reverse_reverse _)
  rw [trimBlanks, List.append_assoc, hback]
  exact List.takeWhile_append_dropWhile.symm

/-- What is left has no blanks at its ends. -/
theorem isTrimmed_trimBlanks (cs : List Char) : IsTrimmed (trimBlanks cs) := by
  have hstart : ∀ l : List Char, ∀ c ∈ (trimFront l).head?, isBlank c = false := by
    intro l c hc
    have hfirst := List.head?_dropWhile_not isBlank l
    rwa [show (l.dropWhile isBlank).head? = some c from hc] at hfirst
  refine ⟨fun c hc => ?_, fun c hc => hstart _ c (by rwa [trimBlanks, List.getLast?_reverse] at hc)⟩
  -- what is left begins as it did before the blanks at the end were cut off
  have hsuffix : trimFront (trimFront cs).reverse <:+ (trimFront cs).reverse := List.dropWhile_suffix _
  obtain ⟨more, hmore⟩ := List.reverse_prefix.mpr hsuffix
  rw [List.reverse_reverse] at hmore
  refine hstart cs c ?_
  rw [← hmore, List.head?_append, show (trimFront (trimFront cs).reverse).reverse.head? = some c from hc]
  rfl

/-- Trimming finds the trimmed text. -/
theorem trimBlanks_eq_iff : trimBlanks cs = core ↔ TrimsTo cs core := by
  constructor
  · rintro rfl
    exact ⟨isTrimmed_trimBlanks cs, exists_trimBlanks cs⟩
  · rintro ⟨hcore, front, back, rfl, hfront, hback⟩
    exact trimBlanks_append hfront hcore hback

/-- Blanks around a text change nothing. -/
theorem trimBlanks_blanks_around (hfront : ∀ c ∈ front, isBlank c = true) (cs : List Char)
    (hback : ∀ c ∈ back, isBlank c = true) : trimBlanks (front ++ cs ++ back) = trimBlanks cs := by
  obtain ⟨before, behind, hcs, hbefore, hbehind⟩ := exists_trimBlanks cs
  have hall : front ++ cs ++ back = (front ++ before) ++ trimBlanks cs ++ (behind ++ back) := by
    conv => lhs; rw [hcs]
    simp only [List.append_assoc]
  rw [hall]
  exact trimBlanks_append (List.forall_mem_append.mpr ⟨hfront, hbefore⟩) (isTrimmed_trimBlanks cs)
    (List.forall_mem_append.mpr ⟨hbehind, hback⟩)

theorem trimBlanks_eq_nil_iff : trimBlanks cs = [] ↔ ∀ c ∈ cs, isBlank c = true := by
  constructor
  · intro h
    obtain ⟨front, back, hcs, hfront, hback⟩ := exists_trimBlanks cs
    rw [h, List.append_nil] at hcs
    rw [hcs]
    exact List.forall_mem_append.mpr ⟨hfront, hback⟩
  · intro h
    have hnone : IsTrimmed [] := isTrimmed_of_forall (List.forall_mem_nil _)
    simpa using trimBlanks_append h hnone (List.forall_mem_nil _)

end Trimmed

/-! ## Parts between separators -/

variable {separator : Char} {cs part : List Char}

/-- A function splits at a separator if it does so for a text with one more character. -/
theorem eq_splitOn {split : List Char → List (List Char)} (hnil : split [] = [[]])
    (hcons : ∀ c cs part parts, split cs = part :: parts →
      split (c :: cs) = if c = separator then [] :: part :: parts else (c :: part) :: parts)
    (cs : List Char) : split cs = cs.splitOn separator := by
  induction cs with
  | nil => exact hnil
  | cons c cs ih =>
    obtain ⟨part, parts, hparts⟩ := List.exists_cons_of_ne_nil (List.splitOn_ne_nil separator cs)
    rw [hcons c cs part parts (ih.trans hparts), List.splitOn_cons_eq_if_modifyHead, hparts]
    simp only [beq_iff_eq, List.modifyHead_cons]

theorem notMem_of_mem_splitOn (h : part ∈ cs.splitOn separator) : separator ∉ part := by
  induction cs generalizing part with
  | nil =>
    obtain rfl := List.mem_singleton.mp h
    exact List.not_mem_nil
  | cons c cs ih =>
    obtain ⟨first, others, hparts⟩ := List.exists_cons_of_ne_nil (List.splitOn_ne_nil separator cs)
    rw [List.splitOn_cons_eq_if_modifyHead, hparts] at h
    rw [hparts] at ih
    split at h
    case isTrue =>
      rcases List.mem_cons.mp h with rfl | h
      · exact List.not_mem_nil
      · exact ih h
    case isFalse hc =>
      rcases List.mem_cons.mp h with rfl | h
      · have hne : separator ≠ c := fun heq => hc (beq_iff_eq.mpr heq.symm)
        exact List.not_mem_cons_of_ne_of_not_mem hne (ih List.mem_cons_self)
      · exact ih (List.mem_cons_of_mem _ h)

end RemoteTable
