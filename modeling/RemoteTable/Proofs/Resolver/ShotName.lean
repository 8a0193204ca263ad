import RemoteTable.Proofs.Text.FilePath
import RemoteTable.Proofs.Text.Numeral
import RemoteTable.Resolver

/-!
# Names of shots

A file is named after its shot, with a version behind the name of the shot and an extension behind the
version. The stem of the file is found by the rules for paths (`HasFileStem`), and one version is taken
off its end if there is one (`dropVersion_append`, `dropVersion_of_no_version`). So the shot of a
versioned file is found whatever its name looks like, and a name without a version is kept as it is
(`defaultShotName_exact`).
-/

namespace RemoteTable

/-! ## Versions -/

/-- Whether a text is one ASCII digit or more. -/
structure AreDigits (digits : List Char) : Prop where
  /-- There is a digit. -/
  nonempty : digits ≠ []
  /-- There is nothing but digits. -/
  digit : ∀ c ∈ digits, isDigit c = true

theorem AreDigits.not_mem {digits : List Char} (h : AreDigits digits) {c : Char}
    (hc : isDigit c = false) : c ∉ digits := by
  intro hmem
  have hdigit := h.digit c hmem
  rw [hc] at hdigit
  cases hdigit

variable {digits : List Char} (front : List Char)

/-- Behind the name the digits are read from the end up to the letter of the version. -/
theorem digits_of_reverse (h : AreDigits digits) :
    (front ++ '_' :: 'v' :: digits).reverse.takeWhile isDigit = digits.reverse ∧
      (front ++ '_' :: 'v' :: digits).reverse.dropWhile isDigit = 'v' :: '_' :: front.reverse := by
  have hreverse : (front ++ '_' :: 'v' :: digits).reverse =
      digits.reverse ++ 'v' :: '_' :: front.reverse := by simp
  have hdigit : ∀ c ∈ digits.reverse, isDigit c = true :=
    fun c hc => h.digit c (List.mem_reverse.mp hc)
  have hletter : ∀ c ∈ ('v' :: '_' :: front.reverse).head?, isDigit c = false := by
    intro c hc
    obtain rfl : 'v' = c := Option.some.inj hc
    rfl
  rw [hreverse]
  exact span_append hdigit hletter

/-- A version at the end is taken off, and only that one. -/
theorem dropVersion_append (h : AreDigits digits) :
    dropVersion (front ++ '_' :: 'v' :: digits) = front := by
  obtain ⟨htake, hdrop⟩ := digits_of_reverse front h
  rw [dropVersion, htake, hdrop]
  cases hdigits : digits.reverse with
  | nil => exact absurd (List.reverse_eq_nil_iff.mp hdigits) h.nonempty
  | cons c rest => exact List.reverse_reverse front

/-- A stem without a version at its end stays as it is. -/
theorem dropVersion_of_no_version {stem : List Char}
    (h : ∀ front digits, stem = front ++ '_' :: 'v' :: digits → ¬ AreDigits digits) :
    dropVersion stem = stem := by
  unfold dropVersion
  dsimp only
  split
  · rfl
  · -- what was read from the end would be a version
    rename_i rest hdrop hdigits
    have hstem : stem = rest.reverse ++ '_' :: 'v' :: (stem.reverse.takeWhile isDigit).reverse :=
      calc stem = (stem.reverse.takeWhile isDigit ++ stem.reverse.dropWhile isDigit).reverse := by
            rw [List.takeWhile_append_dropWhile, List.reverse_reverse]
        _ = rest.reverse ++ '_' :: 'v' :: (stem.reverse.takeWhile isDigit).reverse := by
            rw [hdrop]
            simp
    refine absurd ⟨?_, fun c hc => ?_⟩ (h _ _ hstem)
    · rwa [ne_eq, List.reverse_eq_nil_iff]
    · exact List.mem_takeWhile_imp (List.mem_reverse.mp hc)
  · rfl

/-! ## Stems of files -/

/-- Whether a text is the stem of a file: that of the last component of the path, or the whole path if
this does not end in the name of a file. -/
inductive HasFileStem : (filename stem : String) → Prop
  /-- The path ends in a name. -/
  | ofName {filename stem : String} {name : List Char} (hname : FilePath.EndsIn filename.toList name)
    (hstem : FilePath.IsStem name stem.toList) : HasFileStem filename stem
  /-- The path ends in no name. -/
  | ofPath {filename : String} (hname : ∀ name, ¬ FilePath.EndsIn filename.toList name) :
    HasFileStem filename filename

theorem hasFileStem_iff {filename stem : String} :
    HasFileStem filename stem ↔
      (FilePath.stem? filename.toList).getD filename.toList = stem.toList := by
  rw [FilePath.stem?]
  constructor
  · rintro (⟨hname, hstem⟩ | ⟨hname⟩)
    · rw [FilePath.fileName?_eq_some_iff.mpr hname]
      exact FilePath.stemOf_eq_iff.mpr hstem
    · rw [FilePath.fileName?_eq_none_iff.mpr hname]
      rfl
  · intro h
    cases hname : FilePath.fileName? filename.toList with
    | some name =>
      rw [hname] at h
      exact .ofName (FilePath.fileName?_eq_some_iff.mp hname) (FilePath.stemOf_eq_iff.mp h)
    | none =>
      rw [hname] at h
      obtain rfl : filename = stem := String.toList_inj.mp h
      exact .ofPath (FilePath.fileName?_eq_none_iff.mp hname)

/-- Every file has one stem. -/
theorem exists_hasFileStem (filename : String) :
    ∃ stem, ∀ other, HasFileStem filename other ↔ other = stem := by
  refine ⟨String.ofList ((FilePath.stem? filename.toList).getD filename.toList), fun other => ?_⟩
  rw [hasFileStem_iff, ← String.toList_inj, String.toList_ofList]
  exact eq_comm

/-- The name of the shot is the stem of the file without the version. -/
theorem defaultShotName_eq {filename stem : String} (h : HasFileStem filename stem) :
    defaultShotName filename = String.ofList (dropVersion stem.toList) := by
  unfold defaultShotName
  dsimp only
  rw [hasFileStem_iff.mp h]

/-! ## Versioned files -/

variable {base extension : List Char}

/-- The name of a versioned file is the name of a file. -/
theorem isFileName_versioned (hbase : '/' ∉ base) (hdigits : AreDigits digits)
    (hextension : '/' ∉ extension) :
    FilePath.IsFileName (base ++ '_' :: 'v' :: digits ++ '.' :: extension) := by
  have hmem : '_' ∈ base ++ '_' :: 'v' :: digits ++ '.' :: extension := by simp
  have hslash : '/' ∉ digits := hdigits.not_mem (by decide)
  refine ⟨List.ne_nil_of_mem hmem, by simp [hbase, hslash, hextension], ?_, ?_⟩ <;>
    · intro heq
      rw [heq] at hmem
      revert hmem
      decide

/-- A point without another one behind it separates the extension. -/
theorem isStem_versioned (hextension : '.' ∉ extension) :
    FilePath.IsStem (base ++ '_' :: 'v' :: digits ++ '.' :: extension)
      (base ++ '_' :: 'v' :: digits) :=
  .cut (by simp) hextension

/-- The stem of a versioned file, alone and in a directory. -/
theorem hasFileStem_versioned (directory : String) {base digits extension : String}
    (hbase : '/' ∉ base.toList) (hdigits : AreDigits digits.toList) (hpoint : '.' ∉ extension.toList)
    (hslash : '/' ∉ extension.toList) :
    HasFileStem (directory ++ "/" ++ base ++ "_v" ++ digits ++ "." ++ extension)
        (base ++ "_v" ++ digits) ∧
      HasFileStem (base ++ "_v" ++ digits ++ "." ++ extension) (base ++ "_v" ++ digits) := by
  have hname := isFileName_versioned hbase hdigits hslash
  have hstem : FilePath.IsStem (base.toList ++ '_' :: 'v' :: digits.toList ++ '.' :: extension.toList)
      (base ++ "_v" ++ digits).toList := by
    have hversioned : (base ++ "_v" ++ digits).toList =
        base.toList ++ '_' :: 'v' :: digits.toList := by simp
    rw [hversioned]
    exact isStem_versioned hpoint
  constructor
  · refine .ofName ?_ hstem
    have hinside := FilePath.EndsIn.inside directory.toList hname .nil
    simpa using hinside
  · refine .ofName ?_ hstem
    have halone := FilePath.EndsIn.alone hname .nil
    simpa using halone

/-- A version at the end of the stem is dropped. -/
theorem defaultShotName_of_version {filename : String} {front digits : String}
    (hstem : HasFileStem filename (front ++ "_v" ++ digits)) (hdigits : AreDigits digits.toList) :
    defaultShotName filename = front := by
  have hversioned : (front ++ "_v" ++ digits).toList =
      front.toList ++ '_' :: 'v' :: digits.toList := by simp
  rw [defaultShotName_eq hstem, hversioned, dropVersion_append _ hdigits, String.ofList_toList]

theorem defaultShotName_of_no_version {filename stem : String} (hstem : HasFileStem filename stem)
    (h : ∀ front digits : String, stem = front ++ "_v" ++ digits → ¬ AreDigits digits.toList) :
    defaultShotName filename = stem := by
  rw [defaultShotName_eq hstem, dropVersion_of_no_version, String.ofList_toList]
  intro front digits heq hdigits
  refine h (String.ofList front) (String.ofList digits) ?_ ?_
  · rw [← String.toList_inj, heq]
    simp
  · rwa [String.toList_ofList]

/-- The name of the shot is found, and nothing but one version is taken off:

* the shot of a file with a version and an extension is what stands in front of the version, whatever
  the directory is, and whatever the name of the shot is made of but slashes;
* every file has one stem, and this without its version is the name of the shot if it ends in one,
  which is `_v` with one digit or more; otherwise the name of the shot is the stem. -/
theorem defaultShotName_exact :
    (∀ directory base digits extension : String, '/' ∉ base.toList → AreDigits digits.toList →
      '.' ∉ extension.toList → '/' ∉ extension.toList →
      defaultShotName (directory ++ "/" ++ base ++ "_v" ++ digits ++ "." ++ extension) = base ∧
        defaultShotName (base ++ "_v" ++ digits ++ "." ++ extension) = base) ∧
    ∀ filename, ∃ stem, (∀ other, HasFileStem filename other ↔ other = stem) ∧
      (∀ front digits : String, stem = front ++ "_v" ++ digits → AreDigits digits.toList →
        defaultShotName filename = front) ∧
      ((∀ front digits : String, stem = front ++ "_v" ++ digits → ¬ AreDigits digits.toList) →
        defaultShotName filename = stem) := by
  constructor
  · intro directory base digits extension hbase hdigits hpoint hslash
    obtain ⟨hinside, halone⟩ :=
      hasFileStem_versioned directory hbase hdigits hpoint hslash
    exact ⟨defaultShotName_of_version hinside hdigits, defaultShotName_of_version halone hdigits⟩
  · intro filename
    obtain ⟨stem, hunique⟩ := exists_hasFileStem filename
    have hstem := (hunique stem).mpr rfl
    refine ⟨stem, hunique, fun front digits heq hdigits => ?_, defaultShotName_of_no_version hstem⟩
    rw [heq] at hstem
    exact defaultShotName_of_version hstem hdigits

/-- A name with a version inside and a letter outside ASCII, and a hidden file without a stem in front
of its point in a directory with a version. -/
theorem versioned_defaultShotName_exact :
    defaultShotName "/films_v1/é_v2.final_v_v007.exr" = "é_v2.final_v" ∧
      defaultShotName "films_v1/._vfx/" = "._vfx" := by
  have hdigits : AreDigits "007".toList := ⟨by decide, List.all_eq_true.mp (by decide)⟩
  obtain ⟨hversioned, -⟩ := defaultShotName_exact.1 "/films_v1" "é_v2.final_v" "007" "exr"
    (by decide) hdigits (by decide) (by decide)
  obtain ⟨stem, hunique, -, hkept⟩ := defaultShotName_exact.2 "films_v1/._vfx/"
  have hstem : stem = "._vfx" := by
    symm
    rw [← hunique, hasFileStem_iff]
    decide
  refine ⟨hversioned, ?_⟩
  rw [hkept, hstem]
  rintro front digits heq ⟨hnonempty, hdigit⟩
  -- the last character would be a digit
  obtain ⟨c, hlast⟩ := Option.isSome_iff_exists.mp (List.getLast?_isSome.mpr hnonempty)
  have hc := hdigit c (List.mem_of_getLast? hlast)
  have hx := congrArg (·.toList.getLast?) (heq.symm.trans hstem)
  simp only [String.toList_append, List.getLast?_append, hlast, Option.some_or] at hx
  obtain rfl : c = 'x' := Option.some.inj (hx.trans (by decide))
  exact absurd hc (by decide)

end RemoteTable
