import AvroBindings.Proofs.FileTree.Opening
import AvroBindings.Proofs.Run.Sets

/-!
# Runs that are given up

What writing the sets of a manifest has done where it stops, whether all sets are written by
then or not.

## Main Definitions

* `Generation.Writes` — what has been written where a run stops.
* `Generation.OnlyWrites` — an action has done nothing else, whatever comes of it.

## Main Statements

* `Emitted.opensAmong_of_write_error` — a type that cannot be written leaves directories on the
  way to its file.
* `Generation.OnlyWrites.bind` — two actions, one after the other.
* `Generation.onlyWrites_emitSets` — writing the sets of a manifest.

## Design Notes

`Generation.EmitsSets` tells what a run does that succeeds.  One that is given up has written
the types before the fault.  Of the type at the fault itself nothing is written.  Either it
cannot be described; or a directory above its file cannot be made, or the file cannot be
written, and then some directories on the way to it may be made.
-/

namespace AvroBindings

open FileTree (OpensAmong wayTo)

namespace Workspace

variable {workspace : Workspace} {path : Path}

/-- Making directories gives the refusal, if there is one, and leaves what was made. -/
theorem perform_makeDirectories (path : Path) (workspace : Workspace) :
    (makeDirectories path).perform workspace =
      (match (workspace.files.makeDirectories path).1 with
        | some cause => .error (.file path cause)
        | none =>
            .ok (), { workspace with files := (workspace.files.makeDirectories path).2 }) := by
  rw [makeDirectories, Action.perform_bind, Action.perform_get]
  dsimp only
  rcases workspace.files.makeDirectories path with ⟨_ | cause, files⟩ <;> rfl

/-- A file that cannot be written leaves all as it was. -/
theorem perform_writeText (path : Path) (text : String) (workspace : Workspace) :
    (writeText path text).perform workspace =
      match workspace.files.writeText path text with
      | .ok files => (.ok (), { workspace with files := files })
      | .error cause => (.error (.file path cause), workspace) := by
  rw [writeText, change, Action.perform_bind, Action.perform_get]
  dsimp only
  cases workspace.files.writeText path text <;> rfl

/-- **What is left where a text could not be stored**: directories on the way, and nothing
else. -/
theorem opensAmong_of_store_error {text : String} {error : RunError} {workspace' : Workspace}
    (hends : FileTree.EndsInName path)
    (h : (do makeParents path; writeText path text : Action Workspace Unit).perform workspace =
      (.error error, workspace')) :
    OpensAmong (wayTo path) workspace.files workspace'.files ∧
      ∃ place cause, error = .file place cause := by
  obtain ⟨parent, hparent, hopens⟩ := FileTree.exists_opensAmong_parent workspace.files hends
  rw [Action.perform_bind, makeParents, hparent] at h
  dsimp only at h
  rw [perform_makeDirectories] at h
  generalize workspace.files.makeDirectories parent = outcome at h hopens
  obtain ⟨_ | cause, files⟩ := outcome
  · dsimp only at h
    rw [perform_writeText] at h
    split at h
    next => simp at h
    next cause hcause =>
      obtain ⟨herror, rfl⟩ := Prod.mk.inj h
      exact ⟨hopens, path, cause, (Except.error.inj herror).symm⟩
  · obtain ⟨herror, rfl⟩ := Prod.mk.inj h
    exact ⟨hopens, parent, cause, (Except.error.inj herror).symm⟩

end Workspace

/-- The path of the file of a type with a tame name ends in a name. -/
theorem Emitted.endsInName_pathOf (root : Path) {type : NamedType} (h : Name.IsTame type.name) :
    FileTree.EndsInName (pathOf root type) := by
  rw [pathOf, Name.filePath_eq_join root h (by decide)]
  exact FileTree.endsInName_join (Name.isName_of_mem_fileNames h (by decide))
    (Name.plain_of_mem_fileNames h) (by simp [Name.fileNames])

/-- **A type that cannot be written** leaves directories on the way to its file. -/
theorem Emitted.opensAmong_of_write_error {type : NamedType} {style : Style} {root : Path}
    {error : RunError} {workspace workspace' : Workspace} (htame : Name.IsTame type.name)
    (h : (write type style root).perform workspace = (.error error, workspace')) :
    OpensAmong (wayTo (pathOf root type)) workspace.files workspace'.files ∧
      ∃ place cause, error = .file place cause := by
  rw [write_eq, ← bind_assoc, Action.perform_bind_eq_error_iff] at h
  rcases h with hstore | ⟨_, next, -, hreturn⟩
  · exact Workspace.opensAmong_of_store_error (endsInName_pathOf _ htame) hstore
  · rw [Action.perform_return] at hreturn
    simp at hreturn

namespace Generation

variable {α β : Type} {options : Options} {generation next generation' : Generation}
  {types others : List NamedType}

/-! ## What has been written -/

/-- **What has been written where a run stops**: named types are stored and reported in order.
If a file operation was refused, some directories on the way to the file of one more type may be
made. -/
structure Writes (options : Options) (generation : Generation) (types : List NamedType)
    (outcome : Except RunError α) (generation' : Generation) : Prop where
  tame : ∀ type ∈ types, Name.IsTame type.name
  report : generation'.report =
    (types.map (Emitted.of options.outputRoot)).foldl Report.add generation.report
  stores : ∃ files,
    generation.workspace.files.StoresAll
      (types.map (Emitted.draft options.style options.outputRoot)) files ∧
    (generation'.workspace.files = files ∨
      ∃ type place cause, outcome = .error (.file place cause) ∧ Name.IsTame type.name ∧
        OpensAmong (wayTo (Emitted.pathOf options.outputRoot type)) files
          generation'.workspace.files)

namespace Writes

variable {outcome : Except RunError β}

/-- Where nothing is written all is as it was. -/
theorem nil (hfiles : generation'.workspace.files = generation.workspace.files)
    (hreport : generation'.report = generation.report) (outcome : Except RunError β) :
    Writes options generation [] outcome generation' :=
  ⟨by simp, hreport, _, .nil _, .inl hfiles⟩

/-- A run that succeeds has stored its types and made no other directories. -/
theorem storesAll {a : α} (h : Writes options generation types (.ok a) generation') :
    generation.workspace.files.StoresAll
      (types.map (Emitted.draft options.style options.outputRoot))
      generation'.workspace.files := by
  obtain ⟨files, hstores, hsame | ⟨_, _, _, herror, -⟩⟩ := h.stores
  · exact hsame ▸ hstores
  · contradiction

/-- What one action has written, and then another. -/
theorem append {a : α} (h : Writes options generation types (.ok a) next)
    (h' : Writes options next others outcome generation') :
    Writes options generation (types ++ others) outcome generation' := by
  obtain ⟨files, hothers, hend⟩ := h'.stores
  refine ⟨List.forall_mem_append.2 ⟨h.tame, h'.tame⟩, ?_, files, ?_, hend⟩
  · rw [h'.report, h.report, List.map_append, List.foldl_append]
  · rw [List.map_append, FileTree.storesAll_append_iff]
    exact ⟨_, h.storesAll, hothers⟩

/-- A fault is passed on with what had been written before it. -/
theorem refused {error : RunError}
    (h : Writes options generation types (.error error : Except RunError α) generation') :
    Writes options generation types (.error error : Except RunError β) generation' := by
  obtain ⟨files, hstores, hend⟩ := h.stores
  refine ⟨h.tame, h.report, files, hstores, hend.imp_right ?_⟩
  rintro ⟨type, place, cause, herror, hopens⟩
  exact ⟨type, place, cause, congrArg _ (Except.error.inj herror), hopens⟩

end Writes

/-- **An action only writes**: whatever comes of it, named types with tame names are stored, and
nothing else is done to the files. -/
def OnlyWrites (options : Options) (action : Action Generation α) : Prop :=
  ∀ generation, ∃ types, Writes options generation types (action.perform generation).1
    (action.perform generation).2

namespace OnlyWrites

theorem exists_writes {action : Action Generation α} {outcome : Except RunError α}
    (h : OnlyWrites options action)
    (hrun : action.perform generation = (outcome, generation')) :
    ∃ types, Writes options generation types outcome generation' := by
  have hwrites := h generation
  rwa [hrun] at hwrites

/-- **Two actions write only, one after the other**, if the second does for whatever the first
can give. -/
theorem bind {x : Action Generation α} {f : α → Action Generation β} (hx : OnlyWrites options x)
    (hf : ∀ a, (∃ generation next, x.perform generation = (.ok a, next)) →
      OnlyWrites options (f a)) :
    OnlyWrites options (x >>= f) := by
  intro generation
  rw [Action.perform_bind]
  rcases hrun : x.perform generation with ⟨error | a, next⟩
  · obtain ⟨types, hwrites⟩ := hx.exists_writes hrun
    exact ⟨types, hwrites.refused⟩
  · obtain ⟨types, hwrites⟩ := hx.exists_writes hrun
    obtain ⟨others, hwrites'⟩ := hf a ⟨generation, next, hrun⟩ next
    exact ⟨types ++ others, hwrites.append hwrites'⟩

theorem «return» (a : α) : OnlyWrites options (pure a : Action Generation α) :=
  fun _ => ⟨[], .nil rfl rfl _⟩

theorem refusal (error : RunError) : OnlyWrites options (throw error : Action Generation α) :=
  fun _ => ⟨[], .nil rfl rfl _⟩

end OnlyWrites

/-- Reading in the workspace of a run writes nothing. -/
theorem onlyWrites_inWorkspace {action : Action Workspace α} (h : Workspace.ReadsOnly action) :
    OnlyWrites options (inWorkspace action) := by
  intro generation
  refine ⟨[], ?_⟩
  rcases hrun : action.perform generation.workspace with ⟨error | a, workspace⟩
  · have hfiles : workspace.files = generation.workspace.files := h.files_eq hrun
    rw [perform_inWorkspace_of_error hrun]
    refine .nil ?_ ?_ _
    · exact hfiles
    · rfl
  · have hfiles : workspace.files = generation.workspace.files := h.files_eq hrun
    have hperform : (inWorkspace action).perform generation =
        (.ok a, ⟨workspace, generation.report⟩) :=
      perform_inWorkspace_eq_ok_iff.2 ⟨hrun, rfl⟩
    rw [hperform]
    refine .nil ?_ ?_ _
    · exact hfiles
    · rfl

/-! ## Types -/

/-- **Emitting a schema writes the type that it describes**, if it describes one and the type
has a tame name. -/
theorem onlyWrites_emit {schema : Json}
    (htame : ∀ type, NamedType.ofSchema options.lead schema = .ok type →
      Name.IsTame type.name) :
    OnlyWrites options (emit options schema) := by
  intro generation
  rcases hrun : (emit options schema).perform generation with ⟨error | ⟨⟩, generation'⟩
  · obtain ⟨failing, hrefused⟩ := perform_emit_eq_error_iff.1 hrun
    cases hrefused with
    | describing _ => exact ⟨[], .nil rfl rfl _⟩
    | @writing type _ _ described h =>
        obtain ⟨hopens, place, cause, rfl⟩ :=
          Emitted.opensAmong_of_write_error (htame type described) h
        exact ⟨[], by simp, rfl, _, .nil _,
          .inr ⟨type, place, cause, rfl, htame type described, hopens⟩⟩
  · obtain ⟨type, hdescribe, hstores, -, hreport⟩ := perform_emit_eq_ok_iff.1 hrun
    refine ⟨[type], List.forall_mem_singleton.2 (htame type hdescribe), hreport, _, ?_,
      .inl rfl⟩
    exact .cons hstores (.nil _)

theorem onlyWrites_emitAll {schemas : List Json}
    (htame : ∀ schema ∈ schemas, ∀ type, NamedType.ofSchema options.lead schema = .ok type →
      Name.IsTame type.name) : OnlyWrites options (emitAll options schemas) := by
  induction schemas with
  | nil => exact .return ()
  | cons schema rest ih =>
      rw [List.forall_mem_cons] at htame
      exact (onlyWrites_emit htame.1).bind fun _ _ => ih htame.2

/-- A schema that is written for a document describes a type with the name of an entry, whatever
was taken off it. -/
theorem isTame_of_mem_schedule {parsed : ParsedSchema} (hread : parsed.Read) {schema : Json}
    (hschema : schema ∈ parsed.schedule) {type : NamedType}
    (hdescribe : NamedType.ofSchema options.lead schema = .ok type) :
    Name.IsTame type.name := by
  obtain ⟨entry, hentry, rfl⟩ : ∃ entry ∈ parsed.named, entry.2 = schema := by
    rcases List.mem_append.1 hschema with hmem | hmem
    · obtain ⟨entry, hfilter, rfl⟩ := List.mem_map.1 hmem
      exact ⟨entry, (List.mem_filter.1 hfilter).1, rfl⟩
    · split at hmem
      next members hroot =>
        obtain rfl := List.mem_singleton.1 hmem
        rw [← hroot] at hdescribe
        obtain ⟨name, -, hentry⟩ :=
          hread.exists_entry_of_root (NamedType.isDefinition_of_ofSchema hdescribe)
        exact ⟨_, hentry, hroot⟩
      next => simp at hmem
  rw [hread.sound.name_of_ofSchema hentry hdescribe]
  exact (Name.isTame_of_isFull (hread.sound.definition entry hentry).fullName).stripPrefix _

theorem onlyWrites_emitParsed {parsed : ParsedSchema} (hread : parsed.Read) :
    OnlyWrites options (emitParsed options parsed) := by
  have htame : ∀ schema ∈ parsed.schedule, ∀ type,
      NamedType.ofSchema options.lead schema = .ok type →
      Name.IsTame type.name := fun schema hschema type => isTame_of_mem_schedule hread hschema
  rw [ParsedSchema.schedule, List.forall_mem_append] at htame
  rw [emitParsed, emitEntries_eq]
  refine (onlyWrites_emitAll htame.1).bind fun _ _ => ?_
  cases hroot : parsed.schema with
  | array items => exact .return ()
  | object members =>
      rw [hroot] at htame
      exact onlyWrites_emit (htame.2 _ (List.mem_singleton_self _))
  | _ => exact .refusal _

/-- **Writing the sets of a manifest only writes**, whether all of them are written or not. -/
theorem onlyWrites_emitSets (options : Options) (manifest : Manifest) :
    OnlyWrites options (emitSets options manifest) := by
  induction manifest with
  | nil => exact .return ()
  | cons set rest ih =>
      obtain ⟨label, locations⟩ := set
      rw [emitSets]
      refine (onlyWrites_inWorkspace (Workspace.ReadsOnly.loadDocuments locations)).bind
        fun parsed hloaded => ?_
      obtain ⟨generation, next, hperform⟩ := hloaded
      have hread := ParsedSchema.Read.loaded (perform_inWorkspace_eq_ok_iff.1 hperform).1
      exact (onlyWrites_emitParsed hread).bind fun _ _ => ih

end Generation

end AvroBindings
