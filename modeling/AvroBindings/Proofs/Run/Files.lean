import Mathlib.Data.List.Perm.Basic
import AvroBindings.Proofs.FileTree.Storing
import AvroBindings.Proofs.Name.Stripped
import AvroBindings.Proofs.Run.Emission
import AvroBindings.Run.Program

/-!
# Files of a run

Where the types of a document are written, when two of them are written to one file, and what
the files hold afterwards.

## Main Definitions

* `Registry.HasOwnFiles` — no two names of a registry have one file.
* `Generation.Registers` — a run has emitted a registry.

## Main Statements

* `Name.placeOf_filePath` — where the file of a full name stands.
* `Generation.registered_files` — what a run over a document writes and what its files hold.

## Design Notes

**One file for two names.**  The stem of a file has small letters only, so names that differ in
a capital, or in a capital for an underscore and a small letter, can have one file.  Of such
types the one that is written last is kept.
-/

namespace AvroBindings

namespace Name

variable {name other : String} {root : Path}

theorem plain_of_isPart {piece : String} (hne : piece ≠ "")
    (h : ∀ c ∈ piece.toList, isPart c = true) :
    ¬Path.IsIdle piece ∧ piece ≠ ".." := by
  refine ⟨?_, ?_⟩
  · rintro (rfl | rfl)
    · exact hne rfl
    · exact absurd (h '.' (by simp)) (by decide)
  · rintro rfl
    exact absurd (h '.' (by simp)) (by decide)

/-- The names on the way to the file of a name are plain. -/
theorem plain_of_mem_fileNames (h : IsTame name) :
    ∀ part ∈ fileNames Emitted.fileExtension name, ¬Path.IsIdle part ∧ part ≠ ".." := by
  refine List.forall_mem_append.2 ⟨fun package hpackage => ?_, List.forall_mem_singleton.2 ?_⟩
  · obtain ⟨hne, hpart⟩ := h.isPart_of_mem_packages package hpackage
    exact plain_of_isPart hne hpart
  · -- The name of a file ends in a letter.
    have hlast : (fileStem name ++ "." ++ Emitted.fileExtension).toList.getLast? =
        some 'y' := by
      simp [Emitted.fileExtension]
    refine ⟨?_, ?_⟩
    · rintro (heq | heq)
      · simp [heq] at hlast
      · simp [heq] at hlast
    · intro heq
      simp [heq] at hlast

/-- **Where the file of a name stands**: below the directories of its namespace. -/
theorem placeOf_filePath (root : Path) (h : IsTame name) :
    FileTree.placeOf (filePath root Emitted.fileExtension name) =
      FileTree.placeOf root ++ fileNames Emitted.fileExtension name := by
  rw [filePath_eq_join root h (by decide)]
  exact FileTree.placeOf_join (isName_of_mem_fileNames h (by decide)) (plain_of_mem_fileNames h)
    (by simp [fileNames])

/-- On the way to the file of a name are the way to the root and the directories of the
namespace. -/
theorem mem_wayTo_filePath {place : Place} (root : Path) (h : IsTame name) :
    place ∈ FileTree.wayTo (filePath root Emitted.fileExtension name) ↔
      place ∈ FileTree.wayTo root ∨
        ∃ inner, inner <+: packages name ∧ place = FileTree.placeOf root ++ inner := by
  rw [filePath_eq_join root h (by decide), fileNames]
  refine FileTree.mem_wayTo_join (isName_of_mem_fileNames h (by decide))
    fun package hpackage => ?_
  obtain ⟨hne, hpart⟩ := h.isPart_of_mem_packages package hpackage
  exact plain_of_isPart hne hpart

/-- The files of names stand at one place only if they have one path. -/
theorem filePath_eq_of_placeOf_eq (h : IsTame name) (h' : IsTame other)
    (hplace : FileTree.placeOf (filePath root Emitted.fileExtension name) =
      FileTree.placeOf (filePath root Emitted.fileExtension other)) :
    filePath root Emitted.fileExtension name = filePath root Emitted.fileExtension other := by
  rw [placeOf_filePath root h, placeOf_filePath root h', List.append_right_inj] at hplace
  exact (filePath_eq_iff_fileNames_eq h h' (by decide)).2 hplace

/-- The files of full names stand at one place only if the names share a file. -/
theorem sharesFile_of_placeOf_eq (h : isFull name = true) (h' : isFull other = true)
    (hplace : FileTree.placeOf (filePath root Emitted.fileExtension name) =
      FileTree.placeOf (filePath root Emitted.fileExtension other)) : SharesFile name other :=
  (filePath_eq_iff h h' (by decide)).1
    (filePath_eq_of_placeOf_eq (isTame_of_isFull h) (isTame_of_isFull h') hplace)

end Name

/-- **Every name of a registry has a file of its own.** -/
def Registry.HasOwnFiles (registry : Registry) : Prop :=
  ∀ name ∈ Entries.keys registry, ∀ other ∈ Entries.keys registry, Name.SharesFile name other →
    name = other

instance (registry : Registry) : Decidable registry.HasOwnFiles :=
  inferInstanceAs (Decidable (∀ name ∈ Entries.keys registry, ∀ other ∈ Entries.keys registry,
    Name.SharesFile name other → name = other))

namespace Generation

variable {document : Json} {parsed : ParsedSchema} {options : Options}
  {generation generation' : Generation}

/-- **A run has emitted a registry**: its named types are those of the entries, each under the
key of its entry. -/
structure Registers (options : Options) (parsed : ParsedSchema) (generation : Generation)
    (types : List NamedType) (generation' : Generation) : Prop where
  emits : Emits options generation types generation'
  scheduled :
    List.Forall₂ (fun schema type => NamedType.ofSchema options.lead schema = .ok type)
      parsed.schedule types
  names : (types.map NamedType.name).Perm (Entries.keys parsed.named)
  full : ∀ type ∈ types, Name.isFull type.name = true
  described : ∀ entry ∈ parsed.named,
    ∃ type ∈ types, NamedType.ofSchema options.lead entry.2 = .ok type ∧ type.name = entry.1
  same : ∀ type ∈ types, ∀ type' ∈ types, type.name = type'.name → type = type'

/-- Without a text to take off, a run over a document emits its registry. -/
theorem exists_registers (hwell : document.wellFormed = true)
    (haccepted : Schema.parse document = .ok parsed) (hlead : options.lead = "")
    (hrun : (emitParsed options parsed).perform generation = (.ok (), generation')) :
    ∃ types, Registers options parsed generation types generation' := by
  have hread := ParsedSchema.Read.parsed hwell haccepted
  have hsound := hread.sound
  obtain ⟨-, types, hscheduled, hemits⟩ := emitParsed_eq_ok_iff.1 hrun
  have hwhole : ∀ name, Name.stripPrefix options.lead name = name := by
    rw [hlead]
    exact Name.stripPrefix_empty
  have hentries : ∀ type ∈ types,
      ∃ entry ∈ parsed.named, NamedType.ofSchema options.lead entry.2 = .ok type ∧
      type.name = entry.1 := by
    intro type hmem
    obtain ⟨entry, hentry, htype, hname⟩ :=
      ParsedSchema.exists_entry_of_mem hread hscheduled hmem
    exact ⟨entry, hentry, htype, hname.trans (hwhole _)⟩
  refine ⟨types, hemits, hscheduled, ?_, fun type hmem => ?_, fun entry hentry => ?_,
    fun type hmem type' hmem' hname => ?_⟩
  · have hperm := ParsedSchema.names_perm hread hscheduled
    rwa [List.map_congr_left fun name _ => hwhole name, List.map_id'] at hperm
  · obtain ⟨entry, hentry, -, hname⟩ := hentries type hmem
    exact hname ▸ (hsound.definition entry hentry).fullName
  · obtain ⟨type, hmem, htype, hname⟩ :=
      ParsedSchema.exists_mem_of_entry hread hscheduled hentry
    exact ⟨type, hmem, htype, hname.trans (hwhole _)⟩
  · obtain ⟨entry, hentry, htype, hkey⟩ := hentries type hmem
    obtain ⟨entry', hentry', htype', hkey'⟩ := hentries type' hmem'
    obtain rfl : entry = entry' :=
      List.inj_on_of_nodup_map hsound.distinct hentry hentry'
        (hkey.symm.trans (hname.trans hkey'))
    exact Except.ok.inj (htype.symm.trans htype')

namespace Registers

variable {types : List NamedType} (h : Registers options parsed generation types generation')

include h

/-- Two types stand at one place only if their names share a file. -/
theorem sharesFile {type type' : NamedType} (htype : type ∈ types) (htype' : type' ∈ types)
    (hplace : FileTree.placeOf (Emitted.draft options.style options.outputRoot type').path =
      FileTree.placeOf (Emitted.draft options.style options.outputRoot type).path) :
    Name.SharesFile type'.name type.name := by
  rw [Emitted.draft_path, Emitted.draft_path, Emitted.pathOf, Emitted.pathOf] at hplace
  exact Name.sharesFile_of_placeOf_eq (h.full type' htype') (h.full type htype) hplace

/-- One path is written for each name. -/
theorem written_eq :
    generation'.report.written = generation.report.written ++
      (types.map NamedType.name).map
        (Name.filePath options.outputRoot Emitted.fileExtension) := by
  rw [h.emits.report, Report.written_addAll, List.map_map, List.map_map]
  refine congrArg _ (List.map_congr_left fun type _ => ?_)
  rw [Function.comp_apply, Function.comp_apply, Emitted.of_path, Emitted.pathOf]

/-- A type that shares its file with no other is held. -/
theorem readText_eq_ok {type : NamedType} (htype : type ∈ types)
    (halone : ∀ type' ∈ types, Name.SharesFile type'.name type.name → type'.name = type.name) :
    generation'.workspace.files.readText
      (Name.filePath options.outputRoot Emitted.fileExtension type.name) =
      .ok (type.source options.style) := by
  have hdraft : Emitted.draft options.style options.outputRoot type ∈
      types.map (Emitted.draft options.style options.outputRoot) := List.mem_map_of_mem htype
  have hfile :=
    h.emits.stores.get?_eq_file hdraft <| List.forall_mem_map.2 fun type' htype' hplace => by
    rw [h.same type' htype' type htype (halone type' htype' (h.sharesFile htype htype' hplace))]
  have hfollows := h.emits.stores.follows hdraft
  rw [Emitted.draft_path] at hfollows hfile
  rw [Emitted.draft_text] at hfile
  exact FileTree.readText_eq_ok_iff.2 ⟨hfollows, hfile⟩

/-- If no names share a file, the entries can be emitted in any order. -/
theorem exists_of_perm (hown : parsed.named.HasOwnFiles) {registry : Registry}
    (hregistry : registry.Perm parsed.named)
    (hroot : (∃ items, parsed.schema = .array items) ∨
      ∃ members, parsed.schema = .object members) :
    ∃ generation'', (emitParsed options ⟨parsed.schema, registry⟩).perform generation =
      (.ok (), generation'') ∧
      generation''.report.written.Perm generation'.report.written ∧
      ∀ place,
        generation''.workspace.files.get? place = generation'.workspace.files.get? place := by
  obtain ⟨types', hscheduled, hperm⟩ :=
    List.perm_comp_forall₂ (ParsedSchema.schedule_perm_of_perm hregistry) h.scheduled
  have halone : ∀ draft ∈ types.map (Emitted.draft options.style options.outputRoot),
      ∀ other ∈ types.map (Emitted.draft options.style options.outputRoot),
        FileTree.placeOf other.path = FileTree.placeOf draft.path →
          other.text = draft.text := by
    refine List.forall_mem_map.2 fun type htype =>
      List.forall_mem_map.2 fun type' htype' hplace => ?_
    have hkey : ∀ type ∈ types, type.name ∈ Entries.keys parsed.named := fun type htype =>
      h.names.subset (List.mem_map_of_mem htype)
    have hname :=
      hown _ (hkey type' htype') _ (hkey type htype) (h.sharesFile htype htype' hplace)
    rw [h.same type' htype' type htype hname]
  obtain ⟨files, hstores, hsame⟩ := h.emits.stores.exists_of_perm (hperm.map _) halone
  refine ⟨⟨⟨files, generation.workspace.outside⟩,
    (types'.map (Emitted.of options.outputRoot)).foldl Report.add generation.report⟩, ?_,
      ?_, hsame⟩
  · exact emitParsed_eq_ok_iff.2 ⟨hroot, types', hscheduled, hstores, rfl, rfl⟩
  · rw [h.emits.report, Report.written_addAll, Report.written_addAll]
    exact ((hperm.map _).map _).append_left _

end Registers

/-- **What a run over a document writes and what its files hold**, with no text taken off the
names.  One path is written for each registered name, and two names have one path exactly if
they share a file.  The file of a name that shares it with no other holds the source of the
type.  If no two names share a file, the entries of the registry can be written in any order,
and the same stands everywhere afterwards. -/
theorem registered_files (hwell : document.wellFormed = true)
    (haccepted : Schema.parse document = .ok parsed) (hlead : options.lead = "")
    (hrun : (emitParsed options parsed).perform generation = (.ok (), generation')) :
    (∃ names : List String, names.Perm (Entries.keys parsed.named) ∧
      generation'.report.written =
      generation.report.written ++
        names.map (Name.filePath options.outputRoot Emitted.fileExtension)) ∧
    (∀ name ∈ Entries.keys parsed.named, ∀ other ∈ Entries.keys parsed.named,
      Name.filePath options.outputRoot Emitted.fileExtension name =
        Name.filePath options.outputRoot Emitted.fileExtension other ↔
          Name.SharesFile name other) ∧
    (∀ entry ∈ parsed.named,
      (∀ other ∈ Entries.keys parsed.named, Name.SharesFile other entry.1 → other = entry.1) →
      ∃ type, NamedType.ofSchema options.lead entry.2 = .ok type ∧ type.name = entry.1 ∧
        generation'.workspace.files.readText
          (Name.filePath options.outputRoot Emitted.fileExtension entry.1) =
          .ok (type.source options.style)) ∧
    (parsed.named.HasOwnFiles → ∀ registry : Registry, registry.Perm parsed.named →
      ∃ generation'', (emitParsed options ⟨parsed.schema, registry⟩).perform generation =
        (.ok (), generation'') ∧
        generation''.report.written.Perm generation'.report.written ∧
        ∀ place, generation''.workspace.files.get? place =
          generation'.workspace.files.get? place) := by
  have hsound := (ParsedSchema.Read.parsed hwell haccepted).sound
  have hfull : ∀ name ∈ Entries.keys parsed.named, Name.isFull name = true := by
    intro name hname
    obtain ⟨schema, hmem⟩ := Entries.mem_keys.1 hname
    exact (hsound.definition _ hmem).fullName
  obtain ⟨types, hregisters⟩ := exists_registers hwell haccepted hlead hrun
  refine ⟨⟨_, hregisters.names, hregisters.written_eq⟩, ?_, ?_, ?_⟩
  · intro name hname other hother
    exact Name.filePath_eq_iff (hfull name hname) (hfull other hother) (by decide)
  · intro entry hentry halone
    obtain ⟨type, htype, hdescribed, hname⟩ := hregisters.described entry hentry
    refine ⟨type, hdescribed, hname, ?_⟩
    rw [← hname] at halone ⊢
    exact hregisters.readText_eq_ok htype fun type' htype' hshares =>
      halone _ (hregisters.names.subset (List.mem_map_of_mem htype')) hshares
  · intro hown registry hregistry
    exact hregisters.exists_of_perm hown hregistry (emitParsed_eq_ok_iff.1 hrun).1

/-- An enum with one symbol, by its name. -/
def enumOf (name symbol : String) : Json :=
  .object [("type", .string "enum"), ("name", .string name),
    ("symbols", .array [.string symbol])]

/-- Two enums of different names, with what is parsed of them. -/
def pairOf (name other : String) : ParsedSchema :=
  ⟨.array [enumOf name "X", enumOf other "Y"],
    [(name, enumOf name "X"), (other, enumOf other "Y")]⟩

/-- The two enums with the entries of the registry in the other order. -/
def swappedPairOf (name other : String) : ParsedSchema :=
  { pairOf name other with named := (pairOf name other).named.reverse }

/-- The run over two enums into a directory, on an empty file tree. -/
def pairRun (parsed : ParsedSchema) : Except RunError Unit × Generation :=
  (emitParsed { Options.standard with outputRoot := ⟨"out"⟩ } parsed).perform
    (.start ⟨.empty, .alone Program.launch⟩)

/-- Two enums have files of their own, and the second of them can be written first. -/
theorem registered_files_shade :
    ∃ generation', pairRun (pairOf "art.Color" "art.Shade") = (.ok (), generation') ∧
      generation'.workspace.files.readText ⟨"out/art/color.py"⟩ =
        .ok "from typing import Literal\n\n\nColor = Literal[\"X\"]\n" ∧
      generation'.workspace.files.readText ⟨"out/art/shade.py"⟩ =
        .ok "from typing import Literal\n\n\nShade = Literal[\"Y\"]\n" ∧
      ∃ generation'', pairRun (swappedPairOf "art.Color" "art.Shade") = (.ok (), generation'') ∧
        ∀ place, generation''.workspace.files.get? place =
          generation'.workspace.files.get? place := by
  have hwell : (pairOf "art.Color" "art.Shade").schema.wellFormed = true := by decide
  have haccepted : Schema.parse (pairOf "art.Color" "art.Shade").schema =
      .ok (pairOf "art.Color" "art.Shade") := rfl
  have hown : (pairOf "art.Color" "art.Shade").named.HasOwnFiles := by decide +kernel
  have hok : (pairRun (pairOf "art.Color" "art.Shade")).1.isOk = true := by decide +kernel
  generalize hrun : pairRun (pairOf "art.Color" "art.Shade") = outcome at hok
  obtain ⟨_ | ⟨⟩, generation'⟩ := outcome
  · exact absurd hok Bool.false_ne_true
  obtain ⟨-, -, hheld, horder⟩ := registered_files hwell haccepted rfl hrun
  have hread : ∀ entry ∈ (pairOf "art.Color" "art.Shade").named, ∀ type,
      NamedType.ofSchema "" entry.2 = .ok type →
        generation'.workspace.files.readText (Name.filePath ⟨"out"⟩ Emitted.fileExtension
          entry.1) =
          .ok (type.source .dataclass) := by
    intro entry hentry type htype
    obtain ⟨type', htype', -, hread⟩ := hheld entry hentry fun other hother hshares =>
      hown other hother entry.1 (List.mem_map_of_mem hentry) hshares
    obtain rfl : type' = type := Except.ok.inj (htype'.symm.trans htype)
    exact hread
  obtain ⟨generation'', hswapped, -, hsame⟩ := horder hown _ (List.reverse_perm _)
  have hcolor := hread ("art.Color", enumOf "art.Color" "X") List.mem_cons_self _ rfl
  have hshade :=
    hread ("art.Shade", enumOf "art.Shade" "Y")
      (List.mem_cons_of_mem _ List.mem_cons_self) _ rfl
  have hpaths : Name.filePath ⟨"out"⟩ Emitted.fileExtension "art.Color" = ⟨"out/art/color.py"⟩ ∧
      Name.filePath ⟨"out"⟩ Emitted.fileExtension "art.Shade" = ⟨"out/art/shade.py"⟩ := by
        decide +kernel
  rw [hpaths.1] at hcolor
  rw [hpaths.2] at hshade
  refine ⟨generation', rfl, hcolor.trans (congrArg _ ?_), hshade.trans (congrArg _ ?_),
    generation'', hswapped, hsame⟩
  · decide +kernel
  · decide +kernel

/-- `a.Foo` and `a.foo` have one file, and of the two enums only the one that is written last is
in it. -/
theorem registered_files_foo :
    (pairOf "a.Foo" "a.foo").schema.wellFormed = true ∧
    Schema.parse (pairOf "a.Foo" "a.foo").schema = .ok (pairOf "a.Foo" "a.foo") ∧
    (pairRun (pairOf "a.Foo" "a.foo")).1.isOk = true ∧
    (pairRun (pairOf "a.Foo" "a.foo")).2.report.written = [⟨"out/a/foo.py"⟩, ⟨"out/a/foo.py"⟩] ∧
    (pairRun (pairOf "a.Foo" "a.foo")).2.workspace.files.readText ⟨"out/a/foo.py"⟩ =
      .ok "from typing import Literal\n\n\nFoo = Literal[\"Y\"]\n" ∧
    (pairRun (swappedPairOf "a.Foo" "a.foo")).2.workspace.files.readText ⟨"out/a/foo.py"⟩ =
      .ok "from typing import Literal\n\n\nFoo = Literal[\"X\"]\n" := by
  refine ⟨by decide, rfl, ?_, ?_, ?_, ?_⟩
  all_goals decide +kernel

end Generation

end AvroBindings
