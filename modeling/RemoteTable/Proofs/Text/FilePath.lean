import Mathlib.Data.List.TakeWhile
import RemoteTable.Proofs.Text.Cuts
import RemoteTable.Text.FilePath

/-!
# Paths that end in the name of a file

A path ends in the name of a file if this is its last component (`FilePath.EndsIn`): slashes and single
points may stand behind it, and anything with a slash in front. `FilePath.fileName?` finds exactly these
names (`FilePath.fileName?_eq_some_iff`). The stem of a name is what stands in front of its last point,
or the whole name if nothing does (`FilePath.IsStem`, `FilePath.stemOf_eq_iff`).
-/

namespace RemoteTable

/-- A list is cut at the last place of an element. -/
theorem exists_last_cut {α : Type} {a : α} {l : List α} (h : a ∈ l) :
    ∃ before after, l = before ++ a :: after ∧ a ∉ after := by
  obtain ⟨after, before, hl, hnot⟩ := List.eq_append_cons_of_mem (List.mem_reverse.mpr h)
  refine ⟨before.reverse, after.reverse, ?_, by simpa using hnot⟩
  rw [← List.reverse_reverse l, hl]
  simp

namespace FilePath

/-! ## Components -/

/-- The program's split at slashes is the library's. -/
theorem splitSlashes_eq_splitOn (path : List Char) : splitSlashes path = path.splitOn '/' :=
  eq_splitOn rfl (fun _ _ _ _ h => by rw [splitSlashes, h]) path

/-- A slash separates components. -/
theorem components_append_slash (front back : List Char) :
    components (front ++ '/' :: back) = components front ++ components back := by
  simp only [components, splitSlashes_eq_splitOn, List.splitOn_append_cons_self, List.filter_append]

/-- Whether a text is a component that can be the name of a file. -/
structure IsFileName (name : List Char) : Prop where
  /-- There is something. -/
  nonempty : name ≠ []
  /-- It is one component. -/
  component : '/' ∉ name
  /-- It is not the directory itself. -/
  notHere : name ≠ ['.']
  /-- It does not lead upwards. -/
  notUp : name ≠ ['.', '.']

/-- A text without slashes is one component, unless it does not count. -/
theorem components_of_not_mem {part : List Char} (h : '/' ∉ part) :
    components part = if part ≠ [] ∧ part ≠ ['.'] then [part] else [] := by
  rw [components, splitSlashes_eq_splitOn, List.splitOn_eq_singleton h, List.filter_cons]
  simp

/-! ## The last component -/

/-- What may stand behind the last component of a path. -/
inductive IsTrail : List Char → Prop
  /-- Nothing. -/
  | nil : IsTrail []
  /-- A slash. -/
  | slash {rest : List Char} (h : IsTrail rest) : IsTrail ('/' :: rest)
  /-- The directory itself. -/
  | here {rest : List Char} (h : IsTrail rest) : IsTrail ('/' :: '.' :: rest)

/-- Whether the last component of a path is the name of a file. -/
inductive EndsIn : (path name : List Char) → Prop
  /-- There is no directory in front. -/
  | alone {name trail : List Char} (hname : IsFileName name) (htrail : IsTrail trail) :
    EndsIn (name ++ trail) name
  /-- Anything may stand in front of a slash. -/
  | inside (directory : List Char) {name trail : List Char} (hname : IsFileName name)
    (htrail : IsTrail trail) : EndsIn (directory ++ '/' :: (name ++ trail)) name

/-- A trail adds no component. -/
theorem components_append_trail {trail : List Char} (h : IsTrail trail) (front : List Char) :
    components (front ++ trail) = components front := by
  induction h generalizing front with
  | nil => rw [List.append_nil]
  | slash _ ih =>
    have hrest := ih []
    rw [List.nil_append] at hrest
    rw [components_append_slash, hrest]
    exact List.append_nil _
  | here _ ih =>
    have hrest := ih ['.']
    rw [List.singleton_append] at hrest
    rw [components_append_slash, hrest]
    exact List.append_nil _

theorem IsTrail.concat_slash {trail : List Char} (h : IsTrail trail) : IsTrail (trail ++ ['/']) := by
  induction h with
  | nil => exact .slash .nil
  | slash _ ih => exact .slash ih
  | here _ ih => exact .here ih

theorem IsTrail.concat_here {trail : List Char} (h : IsTrail trail) :
    IsTrail (trail ++ ['/', '.']) := by
  induction h with
  | nil => exact .here .nil
  | slash _ ih => exact .slash ih
  | here _ ih => exact .here ih

namespace EndsIn

variable {path name : List Char}

theorem isFileName (h : EndsIn path name) : IsFileName name := by
  cases h <;> assumption

/-- A path goes on ending in its name behind more of what may stand there. -/
theorem append_trail {more : List Char} (h : EndsIn path name)
    (hmore : ∀ trail, IsTrail trail → IsTrail (trail ++ more)) : EndsIn (path ++ more) name := by
  cases h with
  | alone hname htrail =>
    rw [List.append_assoc]
    exact .alone hname (hmore _ htrail)
  | inside directory hname htrail =>
    rw [List.append_assoc, List.cons_append, List.append_assoc]
    exact .inside directory hname (hmore _ htrail)

end EndsIn

/-- The last component is the name, if it is a name. -/
theorem fileName?_of_components {path name : List Char} (front : List (List Char))
    (hname : IsFileName name) (h : components path = front ++ [name]) : fileName? path = some name := by
  rw [fileName?, h, List.getLast?_concat, Option.filter_some, if_pos]
  simpa using hname.notUp

/-- The program finds the name that a path ends in. -/
theorem fileName?_of_endsIn {path name : List Char} (h : EndsIn path name) :
    fileName? path = some name := by
  have hname := h.isFileName
  have hcomponents : components name = [name] := by
    rw [components_of_not_mem hname.component, if_pos ⟨hname.nonempty, hname.notHere⟩]
  cases h with
  | alone _ htrail =>
    apply fileName?_of_components [] hname
    rw [components_append_trail htrail, hcomponents]
    rfl
  | inside directory _ htrail =>
    apply fileName?_of_components (components directory) hname
    rw [components_append_slash, components_append_trail htrail, hcomponents]

/-- The name that is found is the last component. -/
theorem eq_and_isFileName_of_components {path last name : List Char} (front : List (List Char))
    (hlast : '/' ∉ last) (hcounts : last ≠ [] ∧ last ≠ ['.'])
    (hcomponents : components path = front ++ [last]) (h : fileName? path = some name) :
    last = name ∧ IsFileName last := by
  rw [fileName?, hcomponents, List.getLast?_concat, Option.filter_eq_some_iff] at h
  obtain ⟨heq, hup⟩ := h
  cases heq
  exact ⟨rfl, hcounts.1, hlast, hcounts.2, by simpa using hup⟩

theorem endsIn_of_fileName? {path name : List Char} (h : fileName? path = some name) :
    EndsIn path name := by
  -- a component that does not count is taken off the end, and so the path gets shorter
  induction hlength : path.length using Nat.strongRecOn generalizing path with
  | ind n ih =>
    by_cases hslash : '/' ∈ path
    · obtain ⟨front, last, rfl, hlast⟩ := exists_last_cut hslash
      have hshorter : front.length < n := by
        rw [← hlength, List.length_append, List.length_cons]
        omega
      have hcomponents := components_append_slash front last
      rw [components_of_not_mem hlast] at hcomponents
      by_cases hcounts : last ≠ [] ∧ last ≠ ['.']
      · rw [if_pos hcounts] at hcomponents
        obtain ⟨rfl, hname⟩ := eq_and_isFileName_of_components _ hlast hcounts hcomponents h
        have hends := EndsIn.inside front hname .nil
        rwa [List.append_nil] at hends
      · rw [if_neg hcounts, List.append_nil] at hcomponents
        have hfront : fileName? front = some name := by
          rw [← h, fileName?, fileName?, hcomponents]
        have hends := ih front.length hshorter hfront rfl
        by_cases hempty : last = []
        · rw [hempty]
          exact hends.append_trail fun _ => IsTrail.concat_slash
        · obtain rfl : last = ['.'] := by
            by_contra hne
            exact hcounts ⟨hempty, hne⟩
          exact hends.append_trail fun _ => IsTrail.concat_here
    · have hcomponents := components_of_not_mem hslash
      by_cases hcounts : path ≠ [] ∧ path ≠ ['.']
      · rw [if_pos hcounts] at hcomponents
        obtain ⟨rfl, hname⟩ := eq_and_isFileName_of_components [] hslash hcounts hcomponents h
        have hends := EndsIn.alone hname .nil
        rwa [List.append_nil] at hends
      · rw [if_neg hcounts] at hcomponents
        rw [fileName?, hcomponents] at h
        cases h

/-- What is found is the last component, if this is the name of a file. -/
theorem fileName?_eq_some_iff {path name : List Char} :
    fileName? path = some name ↔ EndsIn path name :=
  ⟨endsIn_of_fileName?, fileName?_of_endsIn⟩

/-- A path without a name ends in none. -/
theorem fileName?_eq_none_iff {path : List Char} :
    fileName? path = none ↔ ∀ name, ¬ EndsIn path name := by
  simp only [Option.eq_none_iff_forall_ne_some, ne_eq, fileName?_eq_some_iff]

/-- A path ends in one name at most. -/
theorem EndsIn.unique {path name name' : List Char} (h : EndsIn path name) (h' : EndsIn path name') :
    name = name' :=
  Option.some.inj ((fileName?_of_endsIn h).symm.trans (fileName?_of_endsIn h'))

/-! ## Stems -/

/-- Whether a text is the stem of the name of a file. -/
inductive IsStem : (name stem : List Char) → Prop
  /-- There is something in front of the last point. -/
  | cut {stem extension : List Char} (hstem : stem ≠ []) (hlast : '.' ∉ extension) :
    IsStem (stem ++ '.' :: extension) stem
  /-- There is no point, or nothing in front of the last one. -/
  | whole {name : List Char}
    (hnone : ∀ stem extension, name = stem ++ '.' :: extension → '.' ∉ extension → stem = []) :
    IsStem name name

/-- The search for the last point goes over what has none. -/
theorem ne_point_of_mem_reverse {extension : List Char} (h : '.' ∉ extension) :
    ∀ c ∈ extension.reverse, decide (c ≠ '.') = true := by
  intro c hc
  have hne : c ≠ '.' := by
    rintro rfl
    exact h (List.mem_reverse.mp hc)
  exact decide_eq_true hne

/-- The search for the last point stops at it. -/
theorem dropWhile_reverse_point (stem : List Char) {extension : List Char} (h : '.' ∉ extension) :
    (stem ++ '.' :: extension).reverse.dropWhile (fun c => c ≠ '.') = '.' :: stem.reverse := by
  have hreverse : (stem ++ '.' :: extension).reverse = extension.reverse ++ '.' :: stem.reverse := by
    simp
  rw [hreverse, List.dropWhile_append_of_pos (ne_point_of_mem_reverse h),
    List.dropWhile_cons_of_neg (by decide)]

/-- The extension behind the last point is dropped. -/
theorem stemOf_append {stem extension : List Char} (hstem : stem ≠ []) (hlast : '.' ∉ extension) :
    stemOf (stem ++ '.' :: extension) = stem := by
  rw [stemOf, dropWhile_reverse_point stem hlast]
  cases hreverse : stem.reverse with
  | nil => exact absurd (List.reverse_eq_nil_iff.mp hreverse) hstem
  | cons c rest =>
    show (c :: rest).reverse = stem
    rw [← hreverse, List.reverse_reverse]

/-- A name without a point is its own stem. -/
theorem stemOf_of_not_mem {name : List Char} (h : '.' ∉ name) : stemOf name = name := by
  have hnone : name.reverse.dropWhile (fun c => c ≠ '.') = [] :=
    List.dropWhile_eq_nil_iff.mpr (ne_point_of_mem_reverse h)
  rw [stemOf, hnone]

/-- A point in front separates no extension. -/
theorem stemOf_hidden {extension : List Char} (h : '.' ∉ extension) :
    stemOf ('.' :: extension) = '.' :: extension := by
  have hpoint := dropWhile_reverse_point [] h
  rw [List.nil_append] at hpoint
  rw [stemOf, hpoint]
  rfl

theorem stemOf_of_isStem {name stem : List Char} (h : IsStem name stem) : stemOf name = stem := by
  cases h with
  | cut hstem hlast => exact stemOf_append hstem hlast
  | whole hnone =>
    by_cases hpoint : '.' ∈ name
    · obtain ⟨front, extension, rfl, hlast⟩ := exists_last_cut hpoint
      obtain rfl := hnone front extension rfl hlast
      exact stemOf_hidden hlast
    · exact stemOf_of_not_mem hpoint

theorem exists_isStem (name : List Char) : ∃ stem, IsStem name stem := by
  by_cases h : ∃ stem extension, name = stem ++ '.' :: extension ∧ '.' ∉ extension ∧ stem ≠ []
  · obtain ⟨stem, extension, rfl, hlast, hstem⟩ := h
    exact ⟨stem, .cut hstem hlast⟩
  · refine ⟨name, .whole fun stem extension hname hlast => ?_⟩
    by_contra hstem
    exact h ⟨stem, extension, hname, hlast, hstem⟩

/-- Every name has one stem, which is found. -/
theorem stemOf_eq_iff {name stem : List Char} : stemOf name = stem ↔ IsStem name stem := by
  constructor
  · rintro rfl
    obtain ⟨stem, h⟩ := exists_isStem name
    rwa [stemOf_of_isStem h]
  · exact stemOf_of_isStem

end FilePath

end RemoteTable
