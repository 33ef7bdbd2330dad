import Mathlib.Data.List.Infix
import AvroBindings.Proofs.Run.Sets

/-!
# Hidden modules

A module is looked for by its name first as a directory that is a package, and only then as a
file.  So the file of a name is not found as a module if there is a directory beside it that is
called like it but for the ending.

## Main Definitions

* `Name.stemPath` — the path of the file of a name without its ending.
* `Name.directories` — the directories on the way to the file of a name.
* `Name.Hides` — the namespace of a name is the module of another, or lies inside it.

## Main Statements

* `Name.stemPath_mem_directories_iff` — when the file of a name has a directory of another
  beside it.
* `Generation.hidden_modules` — which modules of a document are hidden after a run.

## Design Notes

A module and a package are told apart by nothing but their use: `a.b` is the module of the type
`a.B`, and the package of all types in the namespace `a.b`.
-/

namespace AvroBindings

namespace Name

variable {name other : String} {root : Path}

/-! ## Paths of modules -/

/-- The path of the file of a name without its ending. -/
def stemPath (root : Path) (name : String) : Path :=
  ((packages name).foldl Path.join root).join (fileStem name)

/-- The directories on the way from a root to the file of a name, the outermost first. -/
def directories (root : Path) (name : String) : List Path :=
  ((packages name).inits.filter (· ≠ [])).map (List.foldl Path.join root)

/-- **A name hides another**: its namespace is the module of the other, or lies inside it. -/
def Hides (name other : String) : Prop :=
  space name = modulePath other ∨ (modulePath other ++ ".").toList <+: (space name).toList

instance (name other : String) : Decidable (Hides name other) :=
  inferInstanceAs (Decidable (space name = modulePath other ∨
    (modulePath other ++ ".").toList <+: (space name).toList))

/-- The names that lead to the path of the file of a name without its ending. -/
def stemNames (name : String) : List String := packages name ++ [fileStem name]

theorem fileStem_ne_empty (h : isFull name = true) : fileStem name ≠ "" := by
  obtain ⟨hne, hpart⟩ := isPart_of_mem_segments h (List.getLast_mem (segments_ne_nil name))
  rw [fileStem, snake, ne_eq, ← String.toList_eq_nil_iff, String.toList_ofList, toList_last]
  obtain ⟨c, rest, hchars⟩ := List.exists_cons_of_ne_nil hne
  rw [hchars] at hpart ⊢
  rw [snakeChars]
  split
  next => simp [Text.toLower_of_ascii (toNat_lt_of_isPart (hpart c List.mem_cons_self))]
  next => simp

/-- The names that lead to the path of the file of a full name without its ending are plain. -/
theorem isPart_of_mem_stemNames (h : isFull name = true) :
    ∀ part ∈ stemNames name, part ≠ "" ∧ ∀ c ∈ part.toList, isPart c = true := by
  have htame := isTame_of_isFull h
  exact List.forall_mem_append.2 ⟨htame.isPart_of_mem_packages,
    List.forall_mem_singleton.2 ⟨fileStem_ne_empty h, htame.isPart_of_mem_fileStem⟩⟩

theorem isName_of_mem_stemNames (h : isFull name = true) :
    ∀ part ∈ stemNames name, Path.IsName part := by
  intro part hmem
  obtain ⟨hne, hpart⟩ := isPart_of_mem_stemNames h part hmem
  exact ⟨hne, (notMem_of_isPart hpart).2⟩

theorem fileStem_mem_stemNames (name : String) : fileStem name ∈ stemNames name :=
  List.mem_append_right _ (List.mem_singleton_self _)

theorem stemPath_eq_join (root : Path) (h : isFull name = true) :
    stemPath root name = root.join ("/".intercalate (stemNames name)) :=
  Path.foldl_join (isName_of_mem_packages (isTame_of_isFull h))
    (isName_of_mem_stemNames h _ (fileStem_mem_stemNames name))

/-- **The path of the file of a name is that without the ending, and the ending.** -/
theorem text_filePath (root : Path) (extension : String) (h : isFull name = true) :
    (filePath root extension name).text = (stemPath root name).text ++ "." ++ extension := by
  have hstem := isName_of_mem_stemNames h (fileStem name) (fileStem_mem_stemNames name)
  obtain ⟨c, rest, hchars, hc⟩ := hstem.exists_cons
  rw [filePath, stemPath, Path.join_of_relative (by simpa [hchars] using hc),
    Path.join_of_relative (by simpa [hchars] using hc)]
  simp only [String.append_assoc]

theorem mem_directories_iff {directory : Path} (h : isFull name = true) :
    directory ∈ directories root name ↔
      ∃ names, names ≠ [] ∧ names <+: packages name ∧
      directory = root.join ("/".intercalate names) := by
  have hjoin : ∀ names, names ≠ [] → names <+: packages name →
      names.foldl Path.join root = root.join ("/".intercalate names) := by
    intro names hne hinitial
    exact Path.foldl_join_eq (fun part hpart =>
      isName_of_mem_packages (isTame_of_isFull h) part (hinitial.subset hpart)) hne
  rw [directories, List.mem_map]
  constructor
  · rintro ⟨names, hnames, rfl⟩
    obtain ⟨hinits, hne⟩ := List.mem_filter.1 hnames
    have hne' : names ≠ [] := of_decide_eq_true hne
    have hinitial := (List.mem_inits _ _).1 hinits
    exact ⟨names, hne', hinitial, hjoin names hne' hinitial⟩
  · rintro ⟨names, hne, hinitial, rfl⟩
    exact ⟨names, List.mem_filter.2 ⟨(List.mem_inits _ _).2 hinitial, decide_eq_true hne⟩,
      hjoin names hne hinitial⟩

/-- The segments of a namespace are its packages. -/
theorem segments_space (h : isFull name = true) (hne : packages name ≠ []) :
    segments (space name) = (packages name).map String.toList := by
  have hdot : ∀ package ∈ packages name, '.' ∉ package.toList := fun package hpackage =>
    (notMem_of_isPart ((isTame_of_isFull h).isPart_of_mem_packages package hpackage).2).1
  rw [show space name = ".".intercalate (packages name) from isGapless_of_isFull h]
  exact segments_intercalate hdot hne

/-- The segments of a module are the packages and the stem of its file. -/
theorem segments_modulePath (h : isFull name = true) :
    segments (modulePath name) = (stemNames name).map String.toList := by
  have hdot : ∀ part ∈ stemNames name, '.' ∉ part.toList := fun part hpart =>
    (notMem_of_isPart (isPart_of_mem_stemNames h part hpart).2).1
  rw [(isGapless_of_isFull h).modulePath_eq (isTame_of_isFull h)]
  exact segments_intercalate hdot (by simp)

/-- Full names hide each other exactly if the names that lead to the one begin with those that
lead to the other. -/
theorem hides_iff (h : isFull name = true) (h' : isFull other = true) :
    Hides name other ↔ stemNames other <+: packages name := by
  have hmodule : modulePath other = ".".intercalate (stemNames other) :=
    (isGapless_of_isFull h').modulePath_eq (isTame_of_isFull h')
  have hspace : space name = ".".intercalate (packages name) := isGapless_of_isFull h
  have hne : stemNames other ≠ [] := by simp [stemNames]
  have hinj : ∀ {parts parts' : List String},
      parts.map String.toList = parts'.map String.toList → parts = parts' :=
    fun heq => (List.map_inj_right fun _ _ => String.toList_inj.1).1 heq
  have hmodule' := segments_modulePath h'
  rw [Hides]
  constructor
  · intro hhides
    -- The module of the other name is not empty, so neither is the namespace.
    have hpackages : packages name ≠ [] := by
      intro hnil
      rw [hspace, hnil, String.intercalate_nil] at hhides
      have hempty : modulePath other = "" := by
        rcases hhides with hsame | hinner
        · exact hsame.symm
        · simp at hinner
      have hsegments : (stemNames other).map String.toList = [""].map String.toList := by
        rw [← hmodule', hempty]
        rfl
      have hstem := hinj hsegments
      exact (isPart_of_mem_stemNames h' "" (hstem ▸ List.mem_singleton_self _)).1 rfl
    have hspace' := segments_space h hpackages
    rcases hhides with hsame | ⟨rest, hinner⟩
    · have hsegments := congrArg segments hsame
      rw [hspace', hmodule'] at hsegments
      exact hinj hsegments ▸ List.prefix_refl _
    · have hjoined : space name = modulePath other ++ "." ++ String.ofList rest := by
        rw [← String.toList_inj, ← hinner]
        simp
      have hsegments := congrArg segments hjoined
      rw [hspace', segments_dot, hmodule'] at hsegments
      have hrest : packages name = stemNames other ++
          (segments (String.ofList rest)).map String.ofList := by
        refine hinj (hsegments.trans ?_)
        rw [List.map_append, List.map_map]
        simp
      exact hrest ▸ List.prefix_append _ _
  · rintro ⟨inner, hinner⟩
    rw [hspace, hmodule, ← hinner]
    cases inner with
    | nil => exact .inl (by rw [List.append_nil])
    | cons first rest =>
        refine .inr ⟨(".".intercalate (first :: rest)).toList, ?_⟩
        rw [String.intercalate_append_of_ne_nil hne (by simp)]
        simp

/-- **The file of a name has a directory of another name beside it**, called like it but for the
ending, exactly if the other name hides it. -/
theorem stemPath_mem_directories_iff (h : isFull name = true) (h' : isFull other = true) :
    stemPath root other ∈ directories root name ↔ Hides name other := by
  rw [mem_directories_iff h, hides_iff h h']
  constructor
  · rintro ⟨names, hne, hinitial, hpath⟩
    have hnames : ∀ part ∈ names, Path.IsName part := fun part hpart =>
      isName_of_mem_packages (isTame_of_isFull h) part (hinitial.subset hpart)
    have hleads : root.Leads names (stemPath root other) := ⟨hnames, hne, hpath⟩
    have hleads' : root.Leads (stemNames other) (stemPath root other) :=
      ⟨isName_of_mem_stemNames h', by simp [stemNames], stemPath_eq_join root h'⟩
    exact hleads'.unique hleads ▸ hinitial
  · intro hinitial
    exact ⟨stemNames other, by simp [stemNames], hinitial, stemPath_eq_join root h'⟩

/-- Without its ending the path of the file of a full name leads to the place below its
packages. -/
theorem placeOf_stemPath (root : Path) (h : isFull name = true) :
    FileTree.placeOf (stemPath root name) = FileTree.placeOf root ++ stemNames name := by
  rw [stemPath_eq_join root h]
  refine FileTree.placeOf_join (isName_of_mem_stemNames h) (fun part hpart => ?_)
    (by simp [stemNames])
  obtain ⟨hne, hpart⟩ := isPart_of_mem_stemNames h part hpart
  exact plain_of_isPart hne hpart

/-- The names of files have a dot, so the place without an ending is that of no file. -/
theorem placeOf_stemPath_ne_filePath (root : Path) (h : isFull name = true)
    (h' : isFull other = true) :
    FileTree.placeOf (stemPath root name) ≠
      FileTree.placeOf (filePath root Emitted.fileExtension other) := by
  intro heq
  rw [placeOf_filePath _ (isTame_of_isFull h'), placeOf_stemPath root h, List.append_right_inj]
    at heq
  have hmem : fileStem other ++ "." ++ Emitted.fileExtension ∈ stemNames name :=
    heq ▸ List.mem_append_right _ (List.mem_singleton_self _)
  refine (notMem_of_isPart (isPart_of_mem_stemNames h _ hmem).2).1 ?_
  simp

/-- On the way to the file of another name the place is passed because the way to the root
passes it, or because the other name hides the name. -/
theorem placeOf_stemPath_mem_wayTo_iff (root : Path) (h : isFull name = true)
    (h' : isFull other = true) :
    FileTree.placeOf (stemPath root name) ∈
      FileTree.wayTo (filePath root Emitted.fileExtension other) ↔
      FileTree.placeOf (stemPath root name) ∈ FileTree.wayTo root ∨ Hides other name := by
  rw [mem_wayTo_filePath _ (isTame_of_isFull h'), hides_iff h' h, placeOf_stemPath root h]
  simp

end Name

namespace Generation

variable {document : Json} {parsed : ParsedSchema} {options : Options}
  {generation generation' : Generation}

/-- **Which modules of a document are hidden after a run**, with no text taken off the names.
Without its ending the path of the file of a registered name is a directory on the way to the
file of another exactly if the other one hides it: its namespace is the module of the name, or
lies inside it.  After the run a directory stands beside the file exactly if some registered
name hides it, if one stood there before, or if the way to the output directory passes it. -/
theorem hidden_modules (hwell : document.wellFormed = true)
    (haccepted : Schema.parse document = .ok parsed) (hlead : options.lead = "")
    (hrun : (emitParsed options parsed).perform generation = (.ok (), generation')) :
    ∀ name ∈ Entries.keys parsed.named,
      (Name.filePath options.outputRoot Emitted.fileExtension name).text =
        (Name.stemPath options.outputRoot name).text ++ "." ++ Emitted.fileExtension ∧
      (∀ other ∈ Entries.keys parsed.named,
        Name.stemPath options.outputRoot name ∈ Name.directories options.outputRoot other ↔
          Name.Hides other name) ∧
      (generation'.workspace.files.get?
        (FileTree.placeOf (Name.stemPath options.outputRoot name)) = some .directory ↔
        (∃ other ∈ Entries.keys parsed.named, Name.Hides other name) ∨
          generation.workspace.files.get?
            (FileTree.placeOf (Name.stemPath options.outputRoot name)) =
            some .directory ∨
          FileTree.placeOf (Name.stemPath options.outputRoot name) ∈
            FileTree.wayTo options.outputRoot) := by
  obtain ⟨types, hregisters⟩ := exists_registers hwell haccepted hlead hrun
  have hkeys : ∀ {key}, key ∈ Entries.keys parsed.named ↔ ∃ type ∈ types, type.name = key := by
    intro key
    rw [← hregisters.names.mem_iff, List.mem_map]
  have hfull : ∀ key ∈ Entries.keys parsed.named, Name.isFull key = true := by
    intro key hkey
    obtain ⟨type, htype, rfl⟩ := hkeys.1 hkey
    exact hregisters.full type htype
  intro name hname
  have hfile : ∀ type ∈ types, FileTree.placeOf (Name.stemPath options.outputRoot name) ≠
      FileTree.placeOf (Emitted.draft options.style options.outputRoot type).path := by
    intro type htype
    rw [Emitted.draft_path, Emitted.pathOf]
    exact Name.placeOf_stemPath_ne_filePath _ (hfull name hname) (hregisters.full type htype)
  have hway : ∀ type ∈ types, FileTree.placeOf (Name.stemPath options.outputRoot name) ∈
      FileTree.wayTo (Emitted.draft options.style options.outputRoot type).path ↔
        FileTree.placeOf (Name.stemPath options.outputRoot name) ∈
          FileTree.wayTo options.outputRoot ∨
          Name.Hides type.name name := by
    intro type htype
    rw [Emitted.draft_path, Emitted.pathOf]
    exact Name.placeOf_stemPath_mem_wayTo_iff _ (hfull name hname) (hregisters.full type htype)
  refine ⟨Name.text_filePath _ _ (hfull name hname), fun other hother => ?_, ?_⟩
  · exact Name.stemPath_mem_directories_iff (hfull other hother) (hfull name hname)
  constructor
  · intro hdirectory
    by_cases hpassed : ∃ type ∈ types,
      FileTree.placeOf (Name.stemPath options.outputRoot name) ∈
        FileTree.wayTo (Emitted.draft options.style options.outputRoot type).path
    · obtain ⟨type, htype, hmem⟩ := hpassed
      rcases (hway type htype).1 hmem with hroot | hhides
      · exact .inr (.inr hroot)
      · exact .inl ⟨type.name, hkeys.2 ⟨type, htype, rfl⟩, hhides⟩
    · have huntouched : ∀ draft ∈ types.map (Emitted.draft options.style options.outputRoot),
          FileTree.placeOf (Name.stemPath options.outputRoot name) ≠
            FileTree.placeOf draft.path ∧
            FileTree.placeOf (Name.stemPath options.outputRoot name) ∉
              FileTree.wayTo draft.path :=
        List.forall_mem_map.2 fun type htype =>
          ⟨hfile type htype, fun hmem => hpassed ⟨type, htype, hmem⟩⟩
      rw [hregisters.emits.stores.get?_eq_of_untouched huntouched] at hdirectory
      exact .inr (.inl hdirectory)
  · rintro (⟨other, hother, hhides⟩ | hbefore | hroot)
    · obtain ⟨type, htype, rfl⟩ := hkeys.1 hother
      exact hregisters.emits.stores.get?_eq_directory (List.mem_map_of_mem htype)
        ((hway type htype).2 (.inr hhides))
    · exact hregisters.emits.stores.keeps.directory _ hbefore
    · obtain ⟨type, htype, -⟩ := hkeys.1 hname
      exact hregisters.emits.stores.get?_eq_directory (List.mem_map_of_mem htype)
        ((hway type htype).2 (.inl hroot))

/-- The files of two enums in one namespace are found as modules. -/
theorem hidden_modules_shade :
    ∃ generation', pairRun (pairOf "art.Color" "art.Shade") = (.ok (), generation') ∧
      ∀ name ∈ ["art.Color", "art.Shade"],
        generation'.workspace.files.get? (FileTree.placeOf (Name.stemPath ⟨"out"⟩ name)) ≠
          some .directory := by
  have hwell : (pairOf "art.Color" "art.Shade").schema.wellFormed = true := by decide
  have haccepted : Schema.parse (pairOf "art.Color" "art.Shade").schema =
      .ok (pairOf "art.Color" "art.Shade") := rfl
  have hok : (pairRun (pairOf "art.Color" "art.Shade")).1.isOk = true := by decide +kernel
  obtain ⟨generation', hrun⟩ := exists_eq_ok hok
  refine ⟨generation', hrun, fun name hname hdirectory => ?_⟩
  obtain ⟨-, -, hhidden⟩ := hidden_modules hwell haccepted rfl hrun name hname
  have hshown : ∀ name ∈ ["art.Color", "art.Shade"],
      ¬((∃ other ∈ ["art.Color", "art.Shade"], Name.Hides other name) ∨
        FileTree.empty.get? (FileTree.placeOf (Name.stemPath ⟨"out"⟩ name)) = some .directory ∨
          FileTree.placeOf (Name.stemPath ⟨"out"⟩ name) ∈ FileTree.wayTo ⟨"out"⟩) := by
            decide +kernel
  exact hshown name hname (hhidden.1 hdirectory)

/-- An enum in the namespace `a.b` hides the enum `a.B`: `a.b` is the module of the one and the
package of the other. -/
theorem hidden_modules_b :
    (pairOf "a.B" "a.b.C").schema.wellFormed = true ∧
    Schema.parse (pairOf "a.B" "a.b.C").schema = .ok (pairOf "a.B" "a.b.C") ∧
    (pairRun (pairOf "a.B" "a.b.C")).1.isOk = true ∧
    (pairRun (pairOf "a.B" "a.b.C")).2.report.written = [⟨"out/a/b.py"⟩, ⟨"out/a/b/c.py"⟩] ∧
    Name.stemPath ⟨"out"⟩ "a.B" = ⟨"out/a/b"⟩ ∧ ⟨"out/a/b"⟩ ∈ Name.directories ⟨"out"⟩ "a.b.C" ∧
    (pairRun (pairOf "a.B" "a.b.C")).2.workspace.files.isDirectory ⟨"out/a/b"⟩ = true ∧
    Name.modulePath "a.B" = "a.b" ∧ Name.space "a.b.C" = "a.b" := by
  refine ⟨by decide, rfl, ?_, ?_, ?_, ?_, ?_, ?_, ?_⟩
  all_goals decide +kernel

end Generation

end AvroBindings
