import Mathlib.Data.List.Basic
import AvroBindings.Name
import AvroBindings.Proofs.Path

/-!
# Full names and their files

The segments of full names and where their files lie: below the directories of their namespace,
at the path of their module.

## Main Definitions

* `Name.IsTame` — a text has the characters of full names only.
* `Name.fileNames` — the names on the way from the root of all files to the file of a name.
* `Name.slashed` — the path of a module.
* `Name.SharesFile` — two names have one file.
* `Name.IsGapless` — the namespace of a name has no empty segment.

## Main Statements

* `Name.filePath_eq_join`, `Name.filePath_eq_module` — where the file of a name lies.
* `Name.filePath_eq_iff` — when two full names have one file.
* `Name.IsGapless.slashed_modulePath`, `Name.IsGapless.packageRoot?_eq` — which way its module
  and its package lead.

## Design Notes

The module of a name and the path of its file are built by different functions, from the text of
the namespace and from its segments.  They agree where no segment of the namespace is empty, as
in a full name; and no segment has a dot or a slash.  Of any other name it can still be told
where its file lies, since empty segments are left out of the path.
-/

namespace AvroBindings.Name

/-! ## Characters -/

theorem toNat_lt_of_isPart {c : Char} (h : isPart c = true) : c.toNat < 128 := by
  unfold isPart Char.isAlphanum Char.isAlpha Char.isUpper Char.isLower Char.isDigit at h
  simp only [Bool.or_eq_true, Bool.and_eq_true, decide_eq_true_eq, beq_iff_eq, ge_iff_le,
    UInt32.le_iff_toNat_le] at h
  rcases h with ((h | h) | h) | rfl
  · exact Nat.lt_of_le_of_lt h.2 (by decide)
  · exact Nat.lt_of_le_of_lt h.2 (by decide)
  · exact Nat.lt_of_le_of_lt h.2 (by decide)
  · decide

theorem isPart_toLower {c : Char} (h : isPart c = true) : isPart c.toLower = true := by
  have hascii : ∀ n < 128, isPart (Char.ofNat n) = true →
      isPart (Char.ofNat n).toLower = true := by decide
  have hlower := hascii c.toNat (toNat_lt_of_isPart h)
  rw [Char.ofNat_toNat] at hlower
  exact hlower h

/-- A text of the characters of simple names has no dot and no slash. -/
theorem notMem_of_isPart {chars : List Char} (h : ∀ c ∈ chars, isPart c = true) :
    '.' ∉ chars ∧ '/' ∉ chars :=
  ⟨fun hdot => absurd (h _ hdot) (by decide), fun hslash => absurd (h _ hslash) (by decide)⟩

theorem isPart_of_isSimpleChars {piece : List Char} (h : isSimpleChars piece = true) :
    piece ≠ [] ∧ ∀ c ∈ piece, isPart c = true := by
  cases piece with
  | nil => exact absurd h Bool.false_ne_true
  | cons c rest =>
      rw [isSimpleChars, Bool.and_eq_true, List.all_eq_true] at h
      refine ⟨List.cons_ne_nil _ _, List.forall_mem_cons.2 ⟨?_, h.2⟩⟩
      have hstart := h.1
      rw [isStart, Bool.or_eq_true] at hstart
      rw [isPart, Char.isAlphanum, Bool.or_eq_true, Bool.or_eq_true]
      exact hstart.imp_left .inl

/-- The small letters of a simple name make a text of the same kind. -/
theorem isPart_snakeChars {piece : List Char} (h : ∀ c ∈ piece, isPart c = true) :
    ∀ c ∈ snakeChars piece, isPart c = true := by
  have hlower : ∀ c, isPart c = true → ∀ d ∈ Text.toLower c, isPart d = true := by
    intro c hc d hd
    rw [Text.toLower_of_ascii (toNat_lt_of_isPart hc), List.mem_singleton] at hd
    exact hd ▸ isPart_toLower hc
  have hunderscored : ∀ rest : List Char, (∀ c ∈ rest, isPart c = true) →
      ∀ c ∈ underscored rest, isPart c = true := by
    intro rest hrest c hc
    obtain ⟨original, horiginal, hmem⟩ := List.mem_flatMap.1 hc
    split at hmem
    · rcases List.mem_cons.1 hmem with rfl | hmem
      · rfl
      · exact hlower original (hrest original horiginal) c hmem
    · exact List.mem_singleton.1 hmem ▸ hrest original horiginal
  cases piece with
  | nil => simp [snakeChars]
  | cons first rest =>
      rw [List.forall_mem_cons] at h
      rw [snakeChars, List.forall_mem_append]
      refine ⟨?_, hunderscored rest h.2⟩
      split
      · exact hlower first h.1
      · exact List.forall_mem_singleton.2 h.1

/-! ## Segments -/

theorem segments_eq_splitOn (name : String) : segments name = name.toList.splitOn '.' :=
  List.splitOn_eq_splitOnP.symm

theorem segments_ne_nil (name : String) : segments name ≠ [] := List.splitOnP_ne_nil _ _

theorem toList_space (name : String) :
    (space name).toList = ['.'].intercalate (segments name).dropLast :=
  String.toList_ofList

theorem toList_last (name : String) :
    (last name).toList = (segments name).getLast (segments_ne_nil name) := by
  rw [last, split, String.toList_ofList, List.getLast?_eq_some_getLast (segments_ne_nil name),
    Option.getD_some]

/-- A character between which and others separators are put is one of these, or the
separator. -/
theorem eq_or_mem_of_mem_intercalate {separator c : Char} {pieces : List (List Char)}
    (h : c ∈ [separator].intercalate pieces) : c = separator ∨ ∃ piece ∈ pieces, c ∈ piece := by
  induction pieces with
  | nil => simp at h
  | cons piece rest ih =>
      cases rest with
      | nil => exact .inr ⟨piece, List.mem_singleton_self _, by simpa using h⟩
      | cons other rest =>
          rw [List.intercalate_cons_cons, List.mem_append, List.mem_append, List.mem_singleton]
            at h
          rcases h with (h | h) | h
          · exact .inr ⟨piece, List.mem_cons_self, h⟩
          · exact .inl h
          · exact (ih h).imp_right fun ⟨found, hfound, hc⟩ =>
              ⟨found, List.mem_cons_of_mem _ hfound, hc⟩

theorem mem_intercalate_of_mem {separator c : Char} {pieces : List (List Char)}
    {piece : List Char} (hpiece : piece ∈ pieces) (hc : c ∈ piece) :
    c ∈ [separator].intercalate pieces := by
  induction pieces with
  | nil => simp at hpiece
  | cons first rest ih =>
      cases rest with
      | nil => simpa [← List.mem_singleton.1 hpiece] using hc
      | cons other rest =>
          rw [List.intercalate_cons_cons, List.mem_append]
          rcases List.mem_cons.1 hpiece with rfl | hpiece
          · exact .inl (List.mem_append_left _ hc)
          · exact .inr (ih hpiece)

/-- The characters of a text are dots and those of its segments. -/
theorem toList_eq_intercalate (name : String) :
    name.toList = ['.'].intercalate (segments name) := by
  rw [segments_eq_splitOn]
  exact (List.intercalate_splitOn '.').symm

/-- A dot between two texts parts the segments of the one from those of the other. -/
theorem segments_dot (before rest : String) :
    segments (before ++ "." ++ rest) = segments before ++ segments rest := by
  rw [segments, String.toList_append, String.toList_append, show ".".toList = ['.'] from rfl,
    List.append_assoc, List.singleton_append, List.splitOnP_append_cons _ _ (by simp)]
  rfl

theorem isDotted_dot (before rest : String) : isDotted (before ++ "." ++ rest) = true := by
  simp [isDotted]

theorem qualify_of_isDotted {name : String} (h : isDotted name = true)
    (namespaceName : String) :
    qualify namespaceName name = name := by
  rw [qualify, h, Bool.true_or, if_pos rfl]

theorem qualify_empty (name : String) : qualify "" name = name := by
  simp [qualify]

/-- Without a dot a name is put behind the namespace. -/
theorem qualify_of_not_isDotted {namespaceName name : String} (h : isDotted name = false)
    (hne : namespaceName ≠ "") :
    qualify namespaceName name = namespaceName ++ "." ++ name := by
  simp [qualify, h, hne]

/-- A name that was put into a namespace is not put into it again. -/
theorem qualify_qualify (namespaceName name : String) :
    qualify namespaceName (qualify namespaceName name) = qualify namespaceName name := by
  by_cases hempty : namespaceName = ""
  · rw [hempty, qualify_empty, qualify_empty]
  · cases hdotted : isDotted name with
    | true => rw [qualify_of_isDotted hdotted, qualify_of_isDotted hdotted]
    | false =>
        rw [qualify_of_not_isDotted hdotted hempty, qualify_of_isDotted (isDotted_dot _ _)]

section Full

variable {name : String}

theorem isFull_iff :
    isFull name = true ↔ ∀ piece ∈ segments name, isSimpleChars piece = true := by
  rw [isFull, List.all_eq_true]

theorem isPart_of_mem_segments (h : isFull name = true) {piece : List Char}
    (hpiece : piece ∈ segments name) :
    piece ≠ [] ∧ ∀ c ∈ piece, isPart c = true :=
  isPart_of_isSimpleChars (isFull_iff.1 h piece hpiece)

theorem isPart_of_mem_dropLast (h : isFull name = true) {piece : List Char}
    (hpiece : piece ∈ (segments name).dropLast) : piece ≠ [] ∧ ∀ c ∈ piece, isPart c = true :=
  isPart_of_mem_segments h (List.dropLast_subset _ hpiece)

theorem isFull_dot_iff {before rest : String} :
    isFull (before ++ "." ++ rest) = true ↔ isFull before = true ∧ isFull rest = true := by
  rw [isFull, segments_dot, List.all_append, Bool.and_eq_true, isFull, isFull]

/-- The packages of a name are the segments of its namespace that are not empty. -/
theorem packages_eq_filter (name : String) :
    packages name = ((segments name).dropLast.filter fun piece => !piece.isEmpty).map
      String.ofList := by
  have hdot : ∀ piece ∈ (segments name).dropLast, '.' ∉ piece := fun piece hpiece hmem =>
    absurd (Path.notMem_of_mem_splitOnP (List.dropLast_subset _ hpiece) _ hmem) (by simp)
  rw [packages, segments_eq_splitOn (space name), toList_space]
  cases hpieces : (segments name).dropLast with
  | nil => rfl
  | cons piece rest =>
      rw [hpieces] at hdot
      rw [List.splitOn_intercalate _ hdot (List.cons_ne_nil _ _)]

/-- The packages of a full name are the segments of its namespace. -/
theorem packages_eq (h : isFull name = true) :
    packages name = (segments name).dropLast.map String.ofList := by
  rw [packages_eq_filter, List.filter_eq_self.2 fun piece hpiece =>
    by simpa using (isPart_of_mem_dropLast h hpiece).1]

/-- Full names have the same packages exactly if they have the same namespace. -/
theorem packages_eq_iff {other : String} (h : isFull name = true) (h' : isFull other = true) :
    packages name = packages other ↔ space name = space other := by
  constructor
  · intro hpackages
    rw [packages_eq h, packages_eq h'] at hpackages
    have hpieces := (List.map_inj_right fun x y hxy => String.ofList_inj.1 hxy).1 hpackages
    rw [← String.toList_inj, toList_space, toList_space, hpieces]
  · intro hspace
    rw [packages, packages, hspace]

/-! ## Texts with the characters of names -/

/-- **A text has the characters of full names only**: those of simple names, and dots. -/
def IsTame (name : String) : Prop := ∀ c ∈ name.toList, isPart c = true ∨ c = '.'

theorem isTame_of_isFull (h : isFull name = true) : IsTame name := by
  intro c hc
  rw [toList_eq_intercalate] at hc
  rcases eq_or_mem_of_mem_intercalate hc with hdot | ⟨piece, hpiece, hc⟩
  · exact .inr hdot
  · exact .inl ((isPart_of_mem_segments h hpiece).2 c hc)

namespace IsTame

variable (h : IsTame name)

include h

theorem isPart_of_mem_segments {piece : List Char} (hpiece : piece ∈ segments name) :
    ∀ c ∈ piece, isPart c = true := by
  intro c hc
  have hmem : c ∈ name.toList := toList_eq_intercalate name ▸ mem_intercalate_of_mem hpiece hc
  refine (h c hmem).resolve_right ?_
  rintro rfl
  exact absurd (Path.notMem_of_mem_splitOnP hpiece _ hc) (by simp)

theorem space : IsTame (space name) := by
  intro c hc
  rw [toList_space] at hc
  rcases eq_or_mem_of_mem_intercalate hc with hdot | ⟨piece, hpiece, hc⟩
  · exact .inr hdot
  · exact .inl (h.isPart_of_mem_segments (List.dropLast_subset _ hpiece) c hc)

theorem isPart_of_mem_packages :
    ∀ package ∈ packages name, package ≠ "" ∧ ∀ c ∈ package.toList, isPart c = true := by
  refine List.forall_mem_map.2 fun piece hpiece => ?_
  obtain ⟨hsegment, hne⟩ := List.mem_filter.1 hpiece
  rw [ne_eq, ← String.toList_eq_nil_iff, String.toList_ofList]
  exact ⟨by simpa using hne, h.space.isPart_of_mem_segments hsegment⟩

theorem isPart_of_mem_fileStem : ∀ c ∈ (fileStem name).toList, isPart c = true := by
  rw [fileStem, snake, String.toList_ofList, toList_last]
  exact isPart_snakeChars (h.isPart_of_mem_segments (List.getLast_mem _))

end IsTame

/-! ## Files -/

/-- The names on the way from the root of all files to the file of a name. -/
def fileNames (extension name : String) : List String :=
  packages name ++ [fileStem name ++ "." ++ extension]

/-- A text with slashes in the place of its dots. -/
def slashed (text : String) : String :=
  String.ofList (text.toList.map fun c => if c = '.' then '/' else c)

theorem isName_of_mem_packages (h : IsTame name) :
    ∀ package ∈ packages name, Path.IsName package := by
  intro package hpackage
  obtain ⟨hne, hpart⟩ := h.isPart_of_mem_packages package hpackage
  exact ⟨hne, (notMem_of_isPart hpart).2⟩

variable {extension : String}

theorem isName_file (h : IsTame name) (hextension : '/' ∉ extension.toList) :
    Path.IsName (fileStem name ++ "." ++ extension) := by
  constructor
  · simp [← String.toList_eq_nil_iff]
  · simp only [String.toList_append, List.mem_append, not_or]
    exact ⟨⟨(notMem_of_isPart h.isPart_of_mem_fileStem).2, by decide⟩, hextension⟩

theorem isName_of_mem_fileNames (h : IsTame name) (hextension : '/' ∉ extension.toList) :
    ∀ part ∈ fileNames extension name, Path.IsName part :=
  List.forall_mem_append.2 ⟨isName_of_mem_packages h,
    List.forall_mem_singleton.2 (isName_file h hextension)⟩

/-- **The file of a name lies below the directories of its namespace.** -/
theorem filePath_eq_join (root : Path) (h : IsTame name) (hextension : '/' ∉ extension.toList) :
    filePath root extension name = root.join ("/".intercalate (fileNames extension name)) :=
  Path.foldl_join (isName_of_mem_packages h) (isName_file h hextension)

/-- The packages and the name of the file lead to the file. -/
theorem leads_filePath (root : Path) (h : IsTame name) (hextension : '/' ∉ extension.toList) :
    root.Leads (fileNames extension name) (filePath root extension name) :=
  ⟨isName_of_mem_fileNames h hextension, by simp [fileNames],
    filePath_eq_join root h hextension⟩

/-! ## Modules -/

/-- What lies between the dots of texts in a row are the texts. -/
theorem segments_intercalate {parts : List String} (h : ∀ part ∈ parts, '.' ∉ part.toList)
    (hne : parts ≠ []) :
    segments (".".intercalate parts) = parts.map String.toList := by
  have hdot : ∀ chars ∈ parts.map String.toList, '.' ∉ chars := List.forall_mem_map.2 h
  rw [segments_eq_splitOn, String.toList_intercalate]
  exact List.splitOn_intercalate _ hdot (by simpa using hne)

/-- **A name has no gap**: its namespace is its packages with dots between them. -/
def IsGapless (name : String) : Prop := space name = ".".intercalate (packages name)

theorem isGapless_of_ne_nil (h : ∀ piece ∈ (segments name).dropLast, piece ≠ []) :
    IsGapless name := by
  have hfilter : (segments name).dropLast.filter (fun piece => !piece.isEmpty) =
      (segments name).dropLast :=
    List.filter_eq_self.2 fun piece hpiece => by simpa using h piece hpiece
  rw [IsGapless, ← String.toList_inj, toList_space, String.toList_intercalate,
    packages_eq_filter, hfilter, List.map_map]
  simp

theorem isGapless_of_isFull (h : isFull name = true) : IsGapless name :=
  isGapless_of_ne_nil fun _ hpiece => (isPart_of_mem_dropLast h hpiece).1

namespace IsGapless

variable (h : IsGapless name) (htame : IsTame name)

include h htame

theorem space_isEmpty_iff : (Name.space name).isEmpty = true ↔ packages name = [] := by
  rw [String.isEmpty_iff, show Name.space name = _ from h]
  cases hpackages : packages name with
  | nil => simp
  | cons package rest =>
      have hne := (isName_of_mem_packages htame package (hpackages ▸ List.mem_cons_self)).1
      cases rest with
      | nil => simpa using hne
      | cons other rest => simp [String.intercalate_cons_cons]

/-- The module of a name is its packages and the stem of its file, with dots between them. -/
theorem modulePath_eq :
    modulePath name = ".".intercalate (packages name ++ [fileStem name]) := by
  unfold modulePath
  split
  next hspace =>
    rw [(h.space_isEmpty_iff htame).1 hspace, List.nil_append, String.intercalate_singleton]
  next hspace =>
    rw [String.intercalate_append_of_ne_nil (mt (h.space_isEmpty_iff htame).2 hspace) (by simp),
      String.intercalate_singleton, show Name.space name = _ from h]

/-- The root of the packages is the first of them. -/
theorem packageRoot?_eq : packageRoot? name = (packages name).head? := by
  rw [packageRoot?, show Name.space name = _ from h]
  cases hpackages : packages name with
  | nil => rfl
  | cons package rest =>
      have hdot : ∀ part ∈ package :: rest, '.' ∉ part.toList := fun part hpart =>
        (notMem_of_isPart (htame.isPart_of_mem_packages part (hpackages ▸ hpart)).2).1
      obtain ⟨c, chars, hchars, -⟩ :=
        (isName_of_mem_packages htame package (hpackages ▸ List.mem_cons_self)).exists_cons
      rw [segments_intercalate hdot (List.cons_ne_nil _ _), List.map_cons, List.head?_cons,
        List.head?_cons, hchars]
      show some (String.ofList (c :: chars)) = some package
      rw [← hchars, String.ofList_toList]

end IsGapless

theorem slashed_append (text more : String) :
    slashed (text ++ more) = slashed text ++ slashed more := by
  rw [← String.toList_inj]
  simp [slashed]

theorem slashed_of_notMem {text : String} (h : '.' ∉ text.toList) : slashed text = text := by
  rw [← String.toList_inj, slashed, String.toList_ofList]
  refine (List.map_congr_left fun c hc => if_neg ?_).trans (List.map_id' _)
  rintro rfl
  exact h hc

/-- With slashes for its dots, a row of texts with dots between them is a row with slashes
between them. -/
theorem slashed_intercalate {parts : List String} (h : ∀ part ∈ parts, '.' ∉ part.toList) :
    slashed (".".intercalate parts) = "/".intercalate parts := by
  induction parts with
  | nil => rfl
  | cons part rest ih =>
      rw [List.forall_mem_cons] at h
      cases rest with
      | nil =>
          rw [String.intercalate_singleton, String.intercalate_singleton, slashed_of_notMem h.1]
      | cons other rest =>
          rw [String.intercalate_cons_cons, String.intercalate_cons_cons, slashed_append,
            slashed_append, ih h.2, slashed_of_notMem h.1]
          rfl

/-- The path of a module, with an ending, leads along the names on the way to the file. -/
theorem IsGapless.slashed_modulePath (h : IsGapless name) (htame : IsTame name) :
    slashed (modulePath name) ++ "." ++ extension =
      "/".intercalate (fileNames extension name) := by
  have hdot : ∀ part ∈ packages name ++ [fileStem name], '.' ∉ part.toList := by
    refine List.forall_mem_append.2 ⟨fun package hpackage => ?_, List.forall_mem_singleton.2 ?_⟩
    · exact (notMem_of_isPart (htame.isPart_of_mem_packages package hpackage).2).1
    · exact (notMem_of_isPart htame.isPart_of_mem_fileStem).1
  rw [h.modulePath_eq htame, slashed_intercalate hdot, fileNames]
  cases packages name with
  | nil => simp
  | cons package rest =>
      rw [String.intercalate_append_of_ne_nil (by simp) (by simp),
        String.intercalate_append_of_ne_nil (by simp) (by simp), String.intercalate_singleton,
        String.intercalate_singleton]
      simp only [String.append_assoc]

/-- **The file of a full name lies where its module is looked for.** -/
theorem filePath_eq_module (root : Path) (h : isFull name = true)
    (hextension : '/' ∉ extension.toList) :
    filePath root extension name =
      root.join (slashed (modulePath name) ++ "." ++ extension) := by
  rw [filePath_eq_join root (isTame_of_isFull h) hextension,
    (isGapless_of_isFull h).slashed_modulePath (isTame_of_isFull h)]

end Full

theorem fileNames_eq_iff {extension name other : String} :
    fileNames extension name = fileNames extension other ↔
      packages name = packages other ∧ fileStem name = fileStem other := by
  rw [fileNames, fileNames, List.append_singleton_inj, String.append_left_inj,
    String.append_left_inj]

/-- **Two names share a file**: they have one namespace, and the files of their last segments
have one stem. -/
def SharesFile (name other : String) : Prop :=
  space name = space other ∧ fileStem name = fileStem other

instance (name other : String) : Decidable (SharesFile name other) :=
  inferInstanceAs (Decidable (space name = space other ∧ fileStem name = fileStem other))

/-- **Names have one path** exactly if the names on the way to their files are the same. -/
theorem filePath_eq_iff_fileNames_eq {root : Path} {extension name other : String}
    (h : IsTame name) (h' : IsTame other) (hextension : '/' ∉ extension.toList) :
    filePath root extension name = filePath root extension other ↔
      fileNames extension name = fileNames extension other := by
  constructor
  · intro heq
    have hleads' := leads_filePath root h' hextension
    rw [← heq] at hleads'
    exact (leads_filePath root h hextension).unique hleads'
  · intro heq
    rw [filePath_eq_join root h hextension, heq, filePath_eq_join root h' hextension]

/-- **Full names have one path** exactly if they share a file. -/
theorem filePath_eq_iff {root : Path} {extension name other : String} (h : isFull name = true)
    (h' : isFull other = true) (hextension : '/' ∉ extension.toList) :
    filePath root extension name = filePath root extension other ↔ SharesFile name other := by
  rw [filePath_eq_iff_fileNames_eq (isTame_of_isFull h) (isTame_of_isFull h') hextension,
    SharesFile, ← packages_eq_iff h h', fileNames_eq_iff]

end AvroBindings.Name
