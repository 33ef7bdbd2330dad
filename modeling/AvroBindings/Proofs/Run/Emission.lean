import AvroBindings.Proofs.FileTree.Storing
import AvroBindings.Proofs.Run.Schedule
import AvroBindings.Run.Generate

/-!
# Writing a document

The named types of a parsed document are described and stored one after another, and the report
lists them.

## Main Definitions

* `Emitted.of` — a named type with the path of its file.
* `Emitted.draft` — its source with the path.
* `Generation.Refuses` — a schema is refused: it describes no type, or its type cannot be
  written.
* `Generation.Emits` — what a run does to a state.

## Main Statements

* `Generation.perform_emit_eq_ok_iff`, `Generation.perform_emit_eq_error_iff` — emitting a
  schema.
* `Generation.emitParsed_eq_ok_iff` — what a run over a document does if it succeeds.
* `Report.written_addAll`, `Report.mem_packages_addAll`, `Report.table_addAll` — what a report
  says after several types.
-/

namespace AvroBindings

/-! ## Writing one type -/

namespace Workspace

variable {workspace workspace' : Workspace} {path : Path}

theorem perform_makeDirectories_eq_ok_iff :
    (makeDirectories path).perform workspace = (.ok (), workspace') ↔
      workspace.files.makeDirectories path = (none, workspace'.files) ∧
      workspace'.outside = workspace.outside := by
  rw [makeDirectories, Action.perform_bind, Action.perform_get]
  dsimp only
  rcases workspace.files.makeDirectories path with ⟨refusal, files⟩
  dsimp only
  rw [Action.perform_bind, Action.perform_set]
  obtain ⟨files', outside'⟩ := workspace'
  cases refusal with
  | none => simp [eq_comm]
  | some cause => simp

theorem perform_writeText_eq_ok_iff {text : String} :
    (writeText path text).perform workspace = (.ok (), workspace') ↔
      workspace.files.writeText path text = .ok workspace'.files ∧
      workspace'.outside = workspace.outside := by
  rw [writeText, change, Action.perform_bind, Action.perform_get]
  obtain ⟨files', outside'⟩ := workspace'
  cases hwrite : workspace.files.writeText path text with
  | ok files => simp [hwrite, eq_comm]
  | error cause => simp [hwrite]

/-- Makes the directories above a path. -/
def makeParents (path : Path) : Action Workspace Unit :=
  match path.parent? with
  | some parent => makeDirectories parent
  | none => return ()

theorem perform_makeParents_eq_ok_iff :
    (makeParents path).perform workspace = (.ok (), workspace') ↔
      (match path.parent? with
        | some parent => workspace.files.makeDirectories parent = (none, workspace'.files)
        | none =>
            workspace'.files = workspace.files) ∧ workspace'.outside = workspace.outside := by
  unfold makeParents
  cases path.parent? with
  | some parent => exact perform_makeDirectories_eq_ok_iff
  | none =>
      obtain ⟨files, outside⟩ := workspace
      obtain ⟨files', outside'⟩ := workspace'
      simp [eq_comm]

/-- Storing a text makes the directories above its path and writes the file. -/
theorem perform_store_eq_ok_iff {text : String} :
    (do makeParents path; writeText path text : Action Workspace Unit).perform workspace =
      (.ok (), workspace') ↔
      workspace.files.Stores path text workspace'.files ∧
      workspace'.outside = workspace.outside := by
  rw [Action.perform_seq_eq_ok_iff]
  simp only [perform_writeText_eq_ok_iff, perform_makeParents_eq_ok_iff]
  constructor
  · rintro ⟨next, ⟨hmade, houtside⟩, hwrite, houtside'⟩
    exact ⟨⟨next.files, hmade, hwrite⟩, houtside'.trans houtside⟩
  · rintro ⟨⟨between, hmade, hwrite⟩, houtside⟩
    exact ⟨⟨between, workspace.outside⟩, ⟨hmade, rfl⟩, hwrite, houtside⟩

end Workspace

namespace Emitted

/-- A named type with the path of its file. -/
def of (root : Path) (type : NamedType) : Emitted := ⟨pathOf root type, type⟩

@[simp] theorem of_path (root : Path) (type : NamedType) :
    (of root type).path = pathOf root type := by rw [of]

@[simp] theorem of_type (root : Path) (type : NamedType) : (of root type).type = type :=
  by rw [of]

/-- Writing a named type stores its source under the path of its file. -/
theorem write_eq (type : NamedType) (style : Style) (root : Path) :
    write type style root = (do
      Workspace.makeParents (pathOf root type)
      Workspace.writeText (pathOf root type) (type.source style)
      return of root type) := by
  unfold write of Workspace.makeParents
  dsimp only
  generalize pathOf root type = path
  cases path.parent? with
  | some parent => rfl
  | none => rfl

theorem perform_write_eq_ok_iff {type : NamedType} {style : Style} {root : Path}
    {emitted : Emitted} {workspace workspace' : Workspace} :
    (write type style root).perform workspace = (.ok emitted, workspace') ↔
      emitted = of root type ∧
        workspace.files.Stores (pathOf root type) (type.source style) workspace'.files ∧
        workspace'.outside = workspace.outside := by
  rw [write_eq, ← Workspace.perform_store_eq_ok_iff, ← bind_assoc, Action.perform_bind]
  generalize (Action.perform _ workspace) = outcome
  obtain ⟨_ | ⟨⟩, next⟩ := outcome
  · simp
  · simp [eq_comm]

/-- The source of a named type, and the path of its file. -/
def draft (style : Style) (root : Path) (type : NamedType) : FileTree.Draft :=
  ⟨pathOf root type, type.source style⟩

@[simp] theorem draft_path (style : Style) (root : Path) (type : NamedType) :
    (draft style root type).path = pathOf root type := by rw [draft]

@[simp] theorem draft_text (style : Style) (root : Path) (type : NamedType) :
    (draft style root type).text = type.source style := by rw [draft]

end Emitted

/-! ## Reports -/

namespace Report

variable {report : Report} {emitted : List Emitted}

/-- A report lists the paths of the types that are added. -/
theorem written_addAll :
    (emitted.foldl add report).written = report.written ++ emitted.map Emitted.path := by
  induction emitted generalizing report with
  | nil => simp
  | cons first rest ih => simp [ih, add]

/-- The table of a report has the types that are added. -/
theorem table_addAll :
    (emitted.foldl add report).table =
      (emitted.map Emitted.type).foldl Table.insert report.table := by
  induction emitted generalizing report with
  | nil => simp
  | cons first rest ih => simp [ih, add]

/-- The packages of a report are those of the types that are added. -/
theorem mem_packages_addAll {package : String} :
    package ∈ (emitted.foldl add report).packages ↔
      package ∈ report.packages ∨
        ∃ e ∈ emitted, Name.packageRoot? e.type.name = some package := by
  induction emitted generalizing report with
  | nil => simp
  | cons first rest ih =>
      have hfirst : package ∈ (report.add first).packages ↔
          package ∈ report.packages ∨ Name.packageRoot? first.type.name = some package := by
        unfold add
        cases Name.packageRoot? first.type.name with
        | none => simp
        | some root => simp [or_comm, eq_comm]
      rw [List.foldl_cons, ih, hfirst, List.exists_mem_cons_iff, or_assoc]

theorem path_mem_written {e : Emitted} (h : e ∈ emitted) :
    e.path ∈ (emitted.foldl add report).written := by
  rw [written_addAll]
  exact List.mem_append_right _ (List.mem_map_of_mem h)

theorem name_mem_table {e : Emitted} (h : e ∈ emitted) :
    e.type.name ∈ (emitted.foldl add report).table.names := by
  rw [table_addAll, Table.mem_names_insertAll]
  exact .inr ⟨e.type, List.mem_map_of_mem h, rfl⟩

end Report

/-! ## Running over a document -/

namespace Generation

variable {options : Options} {generation generation' : Generation}

theorem perform_inWorkspace_eq_ok_iff {α : Type} {action : Action Workspace α} {a : α} :
    (inWorkspace action).perform generation = (.ok a, generation') ↔
      action.perform generation.workspace = (.ok a, generation'.workspace) ∧
        generation'.report = generation.report := by
  rw [inWorkspace, Action.perform_bind, Action.perform_get]
  dsimp only
  rcases action.perform generation.workspace with ⟨outcome, workspace⟩
  dsimp only
  rw [Action.perform_bind, Action.perform_set]
  obtain ⟨workspace', report'⟩ := generation'
  cases outcome with
  | ok result => simp [eq_comm, and_assoc]
  | error e => simp

/-- A refusal in the workspace of a run is one of the run, and leaves the report. -/
theorem perform_inWorkspace_eq_error_iff {α : Type} {action : Action Workspace α}
    {error : RunError} :
    (inWorkspace action).perform generation = (.error error, generation') ↔
      action.perform generation.workspace = (.error error, generation'.workspace) ∧
        generation'.report = generation.report := by
  rw [inWorkspace, Action.perform_bind, Action.perform_get]
  dsimp only
  rcases action.perform generation.workspace with ⟨outcome, workspace⟩
  dsimp only
  rw [Action.perform_bind, Action.perform_set]
  obtain ⟨workspace', report'⟩ := generation'
  cases outcome with
  | ok result => simp
  | error e => simp [eq_comm, and_assoc]

theorem perform_inWorkspace_of_error {α : Type} {action : Action Workspace α} {error : RunError}
    {workspace : Workspace}
    (h : action.perform generation.workspace = (.error error, workspace)) :
    (inWorkspace action).perform generation = (.error error, ⟨workspace, generation.report⟩) :=
  perform_inWorkspace_eq_error_iff.2 ⟨h, rfl⟩

/-- **What emitting a schema does**: it is described, stored and reported. -/
theorem perform_emit_eq_ok_iff {schema : Json} :
    (emit options schema).perform generation = (.ok (), generation') ↔
      ∃ type, NamedType.ofSchema options.lead schema = .ok type ∧
        generation.workspace.files.Stores
          (Emitted.draft options.style options.outputRoot type).path
          (Emitted.draft options.style options.outputRoot type).text
          generation'.workspace.files ∧
        generation'.workspace.outside = generation.workspace.outside ∧
        generation'.report = generation.report.add (.of options.outputRoot type) := by
  rw [emit, Action.perform_bind_eq_ok_iff]
  simp only [perform_inWorkspace_eq_ok_iff, Action.perform_modify, Emitted.draft_path,
    Emitted.draft_text]
  obtain ⟨workspace', report'⟩ := generation'
  unfold Emitted.ofSchema
  cases NamedType.ofSchema options.lead schema with
  | error e => simp
  | ok type =>
      simp only [Emitted.perform_write_eq_ok_iff, Except.ok.injEq, exists_eq_left',
        Prod.mk.injEq, true_and]
      constructor
      · rintro ⟨_, ⟨workspace, report⟩, ⟨⟨rfl, hstores, houtside⟩, rfl⟩, hgeneration⟩
        obtain ⟨rfl, rfl⟩ := Generation.mk.inj hgeneration
        exact ⟨hstores, houtside, rfl⟩
      · rintro ⟨hstores, houtside, rfl⟩
        exact ⟨_, ⟨workspace', generation.report⟩, ⟨⟨rfl, hstores, houtside⟩, rfl⟩, rfl⟩

/-- **A schema is refused**: it describes no type, or its type cannot be written.  The type is
given in the second case. -/
inductive Refuses (options : Options) (schema : Json) (generation : Generation) :
    Option NamedType → RunError → Generation → Prop
  | describing {fault : SchemaError}
      (h : NamedType.ofSchema options.lead schema = .error fault) :
      Refuses options schema generation none (.schema fault) generation
  | writing {type : NamedType} {error : RunError} {workspace : Workspace}
      (described : NamedType.ofSchema options.lead schema = .ok type)
      (h : (Emitted.write type options.style options.outputRoot).perform generation.workspace =
        (.error error, workspace)) :
      Refuses options schema generation (some type) error ⟨workspace, generation.report⟩

/-- **Emitting a schema is refused exactly where the schema is.** -/
theorem perform_emit_eq_error_iff {schema : Json} {error : RunError} :
    (emit options schema).perform generation = (.error error, generation') ↔
      ∃ failing, Refuses options schema generation failing error generation' := by
  rw [emit, Action.perform_bind_eq_error_iff, perform_inWorkspace_eq_error_iff]
  constructor
  · rintro (⟨hrefused, hreport⟩ | ⟨emitted, next, -, h⟩)
    · obtain ⟨workspace', report'⟩ := generation'
      obtain rfl : report' = generation.report := hreport
      rw [Emitted.ofSchema] at hrefused
      cases hdescribe : NamedType.ofSchema options.lead schema with
      | error fault =>
          rw [hdescribe] at hrefused
          obtain ⟨herror, rfl⟩ := Prod.mk.inj hrefused
          obtain rfl := Except.error.inj herror
          exact ⟨none, .describing hdescribe⟩
      | ok type =>
          rw [hdescribe] at hrefused
          exact ⟨some type, .writing hdescribe hrefused⟩
    · -- The report is extended whatever is emitted.
      rw [Action.perform_modify] at h
      simp at h
  · rintro ⟨failing, h⟩
    refine .inl ?_
    cases h with
    | describing hdescribe =>
        rw [Emitted.ofSchema, hdescribe]
        exact ⟨rfl, rfl⟩
    | writing hdescribe hrefused =>
        rw [Emitted.ofSchema, hdescribe]
        exact ⟨hrefused, rfl⟩

/-- Emits schemas one after another. -/
def emitAll (options : Options) : List Json → Action Generation Unit
  | [] => return ()
  | schema :: rest => do
    emit options schema
    emitAll options rest

theorem emitAll_append (schemas others : List Json) :
    emitAll options (schemas ++ others) =
      (do emitAll options schemas; emitAll options others) := by
  induction schemas with
  | nil => simp [emitAll]
  | cons schema rest ih => simp [emitAll, ih]

theorem emitEntries_eq (rootName : Option String) (registry : Registry) :
    emitEntries options rootName registry =
      emitAll options
        ((registry.filter fun entry => rootName ≠ some entry.1).map Prod.snd) := by
  induction registry with
  | nil => rfl
  | cons entry rest ih =>
      obtain ⟨name, schema⟩ := entry
      rw [emitEntries, ih]
      by_cases hroot : rootName = some name
      · simp [hroot]
      · simp [hroot, emitAll]

/-- **What a run does to a state**: named types are stored and reported in order. -/
structure Emits (options : Options) (generation : Generation) (types : List NamedType)
    (generation' : Generation) :
    Prop where
  stores : generation.workspace.files.StoresAll
    (types.map (Emitted.draft options.style options.outputRoot))
    generation'.workspace.files
  outside : generation'.workspace.outside = generation.workspace.outside
  report : generation'.report = (types.map (Emitted.of options.outputRoot)).foldl Report.add
    generation.report

/-- What emitting schemas does: each is described, and the named types are stored and reported
in order. -/
theorem perform_emitAll_eq_ok_iff {schemas : List Json} :
    (emitAll options schemas).perform generation = (.ok (), generation') ↔
      ∃ types,
        List.Forall₂ (fun schema type => NamedType.ofSchema options.lead schema = .ok type)
          schemas types ∧
        Emits options generation types generation' := by
  induction schemas generalizing generation with
  | nil =>
      simp only [emitAll, Action.perform_return, Prod.mk.injEq, true_and,
        List.forall₂_nil_left_iff, exists_eq_left]
      constructor
      · rintro rfl
        exact ⟨.nil _, rfl, rfl⟩
      · rintro ⟨hstores, houtside, hreport⟩
        obtain ⟨⟨files, outside⟩, report⟩ := generation
        obtain ⟨⟨files', outside'⟩, report'⟩ := generation'
        cases hstores
        obtain rfl : outside' = outside := houtside
        obtain rfl : report' = report := hreport
        rfl
  | cons schema rest ih =>
      rw [emitAll, Action.perform_seq_eq_ok_iff]
      simp only [perform_emit_eq_ok_iff, ih, List.forall₂_cons_left_iff]
      constructor
      · rintro ⟨next, ⟨type, htype, hstores, houtside, hreport⟩, types, htypes, hrest⟩
        refine ⟨type :: types, ⟨type, types, htype, htypes, rfl⟩, .cons hstores hrest.stores,
          ?_, ?_⟩
        · exact hrest.outside.trans houtside
        · rw [hrest.report, hreport, List.map_cons, List.foldl_cons]
      · rintro ⟨_, ⟨type, types, htype, htypes, rfl⟩, hemits⟩
        obtain ⟨hstores, houtside, hreport⟩ := hemits
        rw [List.map_cons, FileTree.storesAll_cons_iff] at hstores
        obtain ⟨between, hfirst, hothers⟩ := hstores
        refine ⟨⟨⟨between, generation.workspace.outside⟩,
          generation.report.add (.of options.outputRoot type)⟩, ?_, ?_⟩
        · exact ⟨type, htype, hfirst, rfl, rfl⟩
        · exact ⟨types, htypes, hothers, houtside, hreport⟩

/-- **What a run over a document does if it succeeds**: the scheduled schemas are described, and
the named types are stored and reported in order. -/
theorem emitParsed_eq_ok_iff {parsed : ParsedSchema} :
    (emitParsed options parsed).perform generation = (.ok (), generation') ↔
      ((∃ items, parsed.schema = .array items) ∨ ∃ members, parsed.schema = .object members) ∧
      ∃ types,
        List.Forall₂ (fun schema type => NamedType.ofSchema options.lead schema = .ok type)
          parsed.schedule types ∧ Emits options generation types generation' := by
  rw [← perform_emitAll_eq_ok_iff, emitParsed, emitEntries_eq]
  cases hroot : parsed.schema with
  | array items => simp [ParsedSchema.schedule, hroot]
  | object members => simp [ParsedSchema.schedule, hroot, emitAll_append, emitAll]
  | _ =>
      rw [Action.perform_seq_eq_ok_iff]
      simp

end Generation

end AvroBindings
