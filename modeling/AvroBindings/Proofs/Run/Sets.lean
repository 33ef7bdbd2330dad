import AvroBindings.Proofs.Run.Files
import AvroBindings.Proofs.Run.Marking

/-!
# Whole runs

The sets of a manifest are loaded and written one after another; then the packages are marked
and the table is written.

## Main Definitions

* `Generation.EmitsSets` — what a run over the sets of a manifest does to a state.

## Main Statements

* `Generation.emitSets_eq_ok_iff` — what a run over the sets does if it succeeds.
* `Generation.emitsSets_append_iff` — a run over some sets and then over others.
* `Generation.EmitsSets.stores`, `Generation.EmitsSets.report_eq` — all types are stored and
  reported in order.
* `Generation.generate_eq_ok_iff` — a whole run without a formatter.

## Design Notes

Only loading a set depends on what stands in the files, so the types of all sets are told first
and the files they are stored in are told for all of them at once.
-/

namespace AvroBindings

namespace Generation

variable {options : Options} {manifest before after : Manifest}
  {generation generation' reached : Generation} {types : List NamedType}

/-- **What a run over the sets of a manifest does to a state**: each set is loaded, its schedule
described, and the named types are stored and reported. -/
inductive EmitsSets (options : Options) :
    Generation → Manifest → List NamedType → Generation → Prop
  | nil (generation : Generation) : EmitsSets options generation [] [] generation
  | cons {generation between generation' : Generation} {label : String}
      {locations : List String} {rest : Manifest} {parsed : ParsedSchema}
      {workspace : Workspace} {types others : List NamedType}
      (loaded : (Workspace.loadDocuments locations).perform generation.workspace =
        (.ok parsed, workspace))
      (root : (∃ items, parsed.schema = .array items) ∨
        ∃ members, parsed.schema = .object members)
      (described :
        List.Forall₂ (fun schema type => NamedType.ofSchema options.lead schema = .ok type)
          parsed.schedule types)
      (emitted : Emits options ⟨workspace, generation.report⟩ types between)
      (later : EmitsSets options between rest others generation') :
      EmitsSets options generation ((label, locations) :: rest) (types ++ others) generation'

/-- **What a run over the sets of a manifest does if it succeeds.** -/
theorem emitSets_eq_ok_iff :
    (emitSets options manifest).perform generation = (.ok (), generation') ↔
      ∃ types, EmitsSets options generation manifest types generation' := by
  induction manifest generalizing generation with
  | nil =>
      constructor
      · intro h
        obtain ⟨-, rfl⟩ := Prod.mk.inj h
        exact ⟨[], .nil generation⟩
      · rintro ⟨_, ⟨⟩⟩
        rfl
  | cons set rest ih =>
      obtain ⟨label, locations⟩ := set
      rw [emitSets, Action.perform_bind_eq_ok_iff]
      simp only [perform_inWorkspace_eq_ok_iff, Action.perform_seq_eq_ok_iff,
        emitParsed_eq_ok_iff, ih]
      constructor
      · rintro ⟨parsed, ⟨workspace, report⟩, ⟨hload, rfl⟩, between,
          ⟨hroot, types, hdescribed, hemits⟩, others, hlater⟩
        exact ⟨types ++ others, .cons hload hroot hdescribed hemits hlater⟩
      · rintro ⟨_, hsets⟩
        cases hsets with
        | cons hload hroot hdescribed hemits hlater =>
            exact ⟨_, ⟨_, generation.report⟩, ⟨hload, rfl⟩, _, ⟨hroot, _, hdescribed, hemits⟩,
              _, hlater⟩

/-- **A run over some sets and then over others** emits the types of the ones and then those of
the others. -/
theorem emitsSets_append_iff :
    EmitsSets options generation (before ++ after) types generation' ↔
      ∃ first second reached,
        types = first ++ second ∧ EmitsSets options generation before first reached ∧
        EmitsSets options reached after second generation' := by
  induction before generalizing generation types with
  | nil =>
      constructor
      · intro h
        exact ⟨[], types, generation, rfl, .nil generation, h⟩
      · rintro ⟨_, second, _, rfl, ⟨⟩, h⟩
        exact h
  | cons set rest ih =>
      constructor
      · intro h
        cases h with
        | cons hload hroot hdescribed hemits hlater =>
            obtain ⟨first, second, reached, rfl, hfirst, hsecond⟩ := ih.1 hlater
            refine ⟨_, second, reached, (List.append_assoc _ _ _).symm, ?_, hsecond⟩
            exact .cons hload hroot hdescribed hemits hfirst
      · rintro ⟨_, second, reached, rfl, hfirst, hsecond⟩
        cases hfirst with
        | cons hload hroot hdescribed hemits hlater =>
            rw [List.append_assoc]
            exact .cons hload hroot hdescribed hemits
              (ih.2 ⟨_, second, reached, rfl, hlater, hsecond⟩)

/-- Where the first sets succeed, a run goes on with the others from there. -/
theorem perform_emitSets_append (h : EmitsSets options generation before types reached)
    (after : Manifest) :
    (emitSets options (before ++ after)).perform generation =
      (emitSets options after).perform reached := by
  induction h with
  | nil generation => rfl
  | @cons generation _ _ _ locations _ parsed workspace _ _ hload hroot hdescribed hemits
      _ ih =>
      have hloaded : (inWorkspace (Workspace.loadDocuments locations)).perform generation =
          (.ok parsed, ⟨workspace, generation.report⟩) :=
            perform_inWorkspace_eq_ok_iff.2 ⟨hload, rfl⟩
      have hemitted := emitParsed_eq_ok_iff.2 ⟨hroot, _, hdescribed, hemits⟩
      rw [List.cons_append, emitSets, Action.perform_bind, hloaded]
      dsimp only
      rw [Action.perform_bind, hemitted]
      exact ih

namespace EmitsSets

variable (h : EmitsSets options generation manifest types generation')

include h

/-- All types are stored in order; loading changes no file. -/
theorem stores :
    generation.workspace.files.StoresAll
      (types.map (Emitted.draft options.style options.outputRoot))
    generation'.workspace.files := by
  induction h with
  | nil generation => exact .nil _
  | cons hload _ _ hemits _ ih =>
      rw [List.map_append, FileTree.storesAll_append_iff]
      refine ⟨_, ?_, ih⟩
      rw [← (Workspace.ReadsOnly.loadDocuments _).files_eq hload]
      exact hemits.stores

/-- All types are reported in order. -/
theorem report_eq :
    generation'.report = (types.map (Emitted.of options.outputRoot)).foldl Report.add
      generation.report := by
  induction h with
  | nil generation => rfl
  | cons _ _ _ hemits _ ih => rw [ih, hemits.report, List.map_append, List.foldl_append]

/-- Each type has a full name from which the text was taken off. -/
theorem exists_full :
    ∀ type ∈ types, ∃ full,
      Name.isFull full = true ∧ type.name = Name.stripPrefix options.lead full := by
  induction h with
  | nil generation => simp
  | cons hload _ hdescribed _ _ ih =>
      refine List.forall_mem_append.2 ⟨fun type htype => ?_, ih⟩
      have hread := ParsedSchema.Read.loaded hload
      obtain ⟨entry, hentry, -, hname⟩ :=
        ParsedSchema.exists_entry_of_mem hread hdescribed htype
      exact ⟨entry.1, (hread.sound.definition entry hentry).fullName, hname⟩

/-- The names of the types have the characters of full names, whatever was taken off them. -/
theorem tame : ∀ type ∈ types, Name.IsTame type.name := by
  intro type htype
  obtain ⟨full, hfull, hname⟩ := h.exists_full type htype
  exact hname ▸ (Name.isTame_of_isFull hfull).stripPrefix _

end EmitsSets

/-! ## After the sets -/

/-- Writes the table of a report where it is asked for. -/
def writeTable (options : Options) (report : Report) : Action Workspace Unit :=
  match options.tablePath with
  | some path => Workspace.writeTable report.table path
  | none => return ()

/-- What remains to be done once all types are written does not change the report. -/
theorem report_of_finish (h : (finish options).perform generation = (.ok (), generation')) :
    generation'.report = generation.report := by
  rw [finish, Action.perform_bind, Action.perform_get] at h
  exact (perform_inWorkspace_eq_ok_iff.1 h).2

/-- Without a formatter the packages are marked and the table is written. -/
theorem perform_finish_eq_ok_iff (hformatter : options.formatter = none) :
    (finish options).perform generation = (.ok (), generation') ↔
      ∃ created workspace,
        (Marker.ensure options.outputRoot generation.report.packages).perform
            generation.workspace =
          (.ok created, workspace) ∧
        (writeTable options generation.report).perform workspace =
          (.ok (), generation'.workspace) ∧
        generation'.report = generation.report := by
  have hfinish : finishReport options generation.report = (do
      let _ ← Marker.ensure options.outputRoot generation.report.packages
      writeTable options generation.report) := by
    unfold finishReport writeTable
    rw [hformatter]
    cases options.tablePath <;> rfl
  rw [finish, Action.perform_bind, Action.perform_get]
  dsimp only
  rw [perform_inWorkspace_eq_ok_iff, hfinish, Action.perform_bind_eq_ok_iff]
  simp only [← exists_and_right, and_assoc]

/-- **A whole run without a formatter**: the sets are written, the packages are marked, and the
table is written. -/
theorem generate_eq_ok_iff (hformatter : options.formatter = none) :
    (generate options manifest).perform generation = (.ok (), generation') ↔
      ∃ types between created workspace, EmitsSets options generation manifest types between ∧
        (Marker.ensure options.outputRoot between.report.packages).perform between.workspace =
          (.ok created, workspace) ∧
        (writeTable options between.report).perform workspace =
          (.ok (), generation'.workspace) ∧
        generation'.report = between.report := by
  rw [generate, Action.perform_seq_eq_ok_iff]
  simp only [emitSets_eq_ok_iff, perform_finish_eq_ok_iff hformatter]
  constructor
  · rintro ⟨between, ⟨types, hsets⟩, created, workspace, h⟩
    exact ⟨types, between, created, workspace, hsets, h⟩
  · rintro ⟨types, between, created, workspace, hsets, h⟩
    exact ⟨between, ⟨types, hsets⟩, created, workspace, h⟩

end Generation

end AvroBindings
