import Mathlib.Data.List.Permutation
import AvroBindings.Proofs.Run.Agreement

/-!
# Definitions of a run

Which definitions a run meets, and what comes of two different definitions of one name.

## Main Definitions

* `Schema.definitionsIn` — the definitions met in some documents.
* `Workspace.ReadsAll` — documents are read one after another.

## Main Statements

* `Workspace.exists_documents_of_loadAfter`, `Workspace.exists_conflict_of_loadAfter` — what
  loading makes of the definitions met.
* `Generation.definitions_agree` — in each set of a run all definitions of a name are equal.

## Design Notes

**Definitions are compared within a set.**  The documents of a set share a registry, and the
next set starts with none.  All documents of a set are loaded before its first type is written,
so a conflict between them leaves the report and the files as the sets before have left them.
Definitions in two sets are never compared: the table has the type that was written last.
-/

namespace AvroBindings

/-- The definitions met in some documents, in order. -/
def Schema.definitionsIn (documents : List Json) : List (String × Json) :=
  documents.flatMap (Schema.definitions "")

theorem Schema.definitionsIn_cons (document : Json) (documents : List Json) :
    definitionsIn (document :: documents) = definitions "" document ++
      definitionsIn documents := List.flatMap_cons

/-- A definition that cannot be entered behind others differs from one of them of the same
name. -/
theorem Registry.exists_different {done : List (String × Json)} {registry : Registry}
    {name : String} {schema : Json} (hdone : Registry.enterAll [] done = some registry)
    (hrefused : Registry.enter registry (name, schema) = none) :
    ∃ stored, (name, stored) ∈ done ∧ stored.same schema = false := by
  obtain ⟨stored, hlookup, hdifferent⟩ := Registry.enter_eq_none_iff.1 hrefused
  have hmem := Registry.mem_or_mem_of_enterAll hdone _ (Entries.mem_of_lookup hlookup)
  exact ⟨stored, hmem.resolve_left List.not_mem_nil, hdifferent⟩

/-! ## Loading -/

namespace Workspace

variable {workspace workspace' : Workspace} {parsed parsed' : ParsedSchema}
  {locations : List String}

/-- **Documents are read one after another** from some locations. -/
inductive ReadsAll : Workspace → List String → List Json → Workspace → Prop
  | nil (workspace : Workspace) : ReadsAll workspace [] [] workspace
  | cons {workspace next workspace' : Workspace} {location : String} {rest : List String}
      {document : Json} {documents : List Json}
      (read : (loadJson location).perform workspace = (.ok document, next))
      (later : ReadsAll next rest documents workspace') :
      ReadsAll workspace (location :: rest) (document :: documents) workspace'

/-- What is met in documents that are read are well-formed trees. -/
theorem ReadsAll.wellFormed {documents : List Json}
    (h : ReadsAll workspace locations documents workspace') :
    ∀ definition ∈ Schema.definitionsIn documents, definition.2.wellFormed = true := by
  have hdocuments : ∀ document ∈ documents, document.wellFormed = true := by
    induction h with
    | nil workspace => simp
    | cons hread _ ih => exact List.forall_mem_cons.2 ⟨wellFormed_of_loadJson hread, ih⟩
  intro definition hdefinition
  obtain ⟨document, hdocument, hmem⟩ := List.mem_flatMap.1 hdefinition
  exact Schema.wellFormed_of_mem_definitions (hdocuments document hdocument) hmem

/-- **Documents that are loaded are read, and their definitions can be entered** one after
another. -/
theorem exists_documents_of_loadAfter
    (h : (loadAfter parsed locations).perform workspace = (.ok parsed', workspace')) :
    ∃ documents, ReadsAll workspace locations documents workspace' ∧
      Registry.enterAll parsed.named (Schema.definitionsIn documents) = some parsed'.named := by
  induction locations generalizing parsed workspace with
  | nil =>
      obtain ⟨hparsed, rfl⟩ := Prod.mk.inj h
      obtain rfl := Except.ok.inj hparsed
      exact ⟨[], .nil workspace, rfl⟩
  | cons location rest ih =>
      obtain ⟨document, next, schema, named, hread, hqualify, hrest⟩ :=
        perform_loadAfter_cons_eq_ok_iff.1 h
      obtain ⟨documents, hreads, henter⟩ := ih hrest
      refine ⟨document :: documents, .cons hread hreads, ?_⟩
      rw [Schema.definitionsIn_cons, Registry.enterAll_append,
        ((Schema.qualifies "" document _ _ _).1 hqualify).2.1]
      exact henter

/-- **Documents are not loaded if their definitions cannot be entered**, whatever comes behind
them.  If nothing else is wrong with them, the loading is refused for a definition that differs
from another one of its name. -/
theorem exists_conflict_of_loadAfter {documents : List Json}
    (hreads : ReadsAll workspace locations documents workspace')
    (hconflict : Registry.enterAll parsed.named (Schema.definitionsIn documents) = none)
    (rest : List String) :
    ∃ error next, (loadAfter parsed (locations ++ rest)).perform workspace =
      (.error error, next) ∧
      ((∀ document ∈ documents, Schema.WellFormed "" document) →
        ∃ done name schema registry, error = .schema (.invalid (.definedTwice name) schema) ∧
          done ++ [(name, schema)] <+: Schema.definitionsIn documents ∧
          Registry.enterAll parsed.named done = some registry ∧
          Registry.enter registry (name, schema) = none) := by
  -- The induction is on the reading.  The first document is refused by itself, or it is entered
  -- and leaves the conflict to those behind it.
  induction hreads generalizing parsed with
  | nil workspace => exact absurd hconflict (Option.some_ne_none _)
  | @cons _ next _ location _ document documents hread hreads ih =>
      rw [Schema.definitionsIn_cons] at hconflict ⊢
      rw [List.cons_append, loadAfter, Action.perform_bind, hread]
      dsimp only
      rcases hqualify : Schema.qualifyIn parsed.named "" document with ⟨error | schema, named⟩
      · refine ⟨.schema error, next, rfl, fun hwell => ?_⟩
        obtain ⟨done, name, schema, rfl, hprefix, hdone, hrefused⟩ :=
          (Schema.described "" document).refused (hwell _ List.mem_cons_self) _ _ _ hqualify
        exact ⟨done, name, schema, named, rfl, hprefix.trans (List.prefix_append _ _), hdone,
          hrefused⟩
      · have hentered := ((Schema.qualifies "" document _ _ _).1 hqualify).2.1
        rw [Registry.enterAll_append, hentered, Option.bind_some] at hconflict
        have hrest : Registry.enterAll (ParsedSchema.mk schema named).named
            (Schema.definitionsIn documents) = none :=
          hconflict
        obtain ⟨error, final, hrun, hrefusal⟩ := ih hrest
        refine ⟨error, final, hrun, fun hwell => ?_⟩
        obtain ⟨done, name, refused, registry, herror, hprefix, hdone, hrefused⟩ :=
          hrefusal fun other hother => hwell other (List.mem_cons_of_mem _ hother)
        refine ⟨Schema.definitions "" document ++ done, name, refused, registry, herror, ?_, ?_,
          hrefused⟩
        · rw [List.append_assoc]
          exact (List.prefix_append_right_inj _).2 hprefix
        · rw [Registry.enterAll_append, hentered]
          exact hdone

/-- The definitions of documents that are read can be entered exactly if those of one name are
equal. -/
theorem ReadsAll.exists_enterAll_iff {documents : List Json}
    (h : ReadsAll workspace locations documents workspace') :
    (∃ registry, Registry.enterAll [] (Schema.definitionsIn documents) = some registry) ↔
      Registry.Consistent (Schema.definitionsIn documents) := by
  have hnodup : (Entries.keys ([] : Registry)).Nodup := .nil
  have hnone : ∀ entry ∈ ([] : Registry), entry.2.wellFormed = true := by simp
  simp only [Registry.enterAll_eq_some_iff hnodup hnone h.wellFormed, List.nil_append,
    exists_and_left]
  exact and_iff_left ⟨_, rfl⟩

end Workspace

/-! ## Conflicts -/

namespace Generation

variable {options : Options} {generation generation' reached : Generation}
  {before after : Manifest} {types : List NamedType}

/-- **All definitions of a set are equal that have one name**: of each set in a run, read where
the sets before it have left the workspace. -/
theorem EmitsSets.consistent {label : String} {locations : List String}
    (h : EmitsSets options generation (before ++ (label, locations) :: after) types
      generation') :
    ∃ first reached documents workspace, EmitsSets options generation before first reached ∧
      Workspace.ReadsAll reached.workspace locations documents workspace ∧
      Registry.Consistent (Schema.definitionsIn documents) := by
  obtain ⟨first, second, reached, rfl, hfirst, hsecond⟩ := emitsSets_append_iff.1 h
  cases hsecond with
  | cons hload =>
      obtain ⟨documents, hreads, hentered⟩ := Workspace.exists_documents_of_loadAfter hload
      exact ⟨first, reached, documents, _, hfirst, hreads,
        hreads.exists_enterAll_iff.1 ⟨_, hentered⟩⟩

/-- **A conflict in a set is refused** before anything of the set is written. -/
theorem exists_error_of_conflict {label : String} {locations : List String}
    {documents : List Json} {workspace : Workspace}
    (hbefore : EmitsSets options generation before types reached)
    (hreads : Workspace.ReadsAll reached.workspace locations documents workspace)
    (hconflict : ¬Registry.Consistent (Schema.definitionsIn documents)) (rest : List String)
    (after : Manifest) :
    ∃ error generation',
      (generate options (before ++ (label, locations ++ rest) :: after)).perform generation =
        (.error error, generation') ∧
      generation'.report = reached.report ∧
      generation'.workspace.files = reached.workspace.files ∧
      ((∀ document ∈ documents, Schema.WellFormed "" document) →
        ∃ name schema stored, error = .schema (.invalid (.definedTwice name) schema) ∧
          (name, schema) ∈ Schema.definitionsIn documents ∧
          (name, stored) ∈ Schema.definitionsIn documents ∧
          stored.same schema = false) := by
  -- Nothing is registered when the loading of a set starts, so the definitions alone decide.
  have hrefused : Registry.enterAll [] (Schema.definitionsIn documents) = none := by
    rw [Option.eq_none_iff_forall_ne_some]
    exact fun registry hentered => hconflict (hreads.exists_enterAll_iff.1 ⟨registry, hentered⟩)
  have hempty : Registry.enterAll (ParsedSchema.mk .null []).named
      (Schema.definitionsIn documents) = none := hrefused
  obtain ⟨error, next, hload, hrefusal⟩ :=
    Workspace.exists_conflict_of_loadAfter hreads hempty rest
  refine ⟨error, ⟨next, reached.report⟩, ?_, rfl, ?_, fun hwell => ?_⟩
  · have hset : (inWorkspace (Workspace.loadDocuments (locations ++ rest))).perform reached =
        (.error error, ⟨next, reached.report⟩) := perform_inWorkspace_of_error hload
    rw [generate, Action.perform_bind, perform_emitSets_append hbefore, emitSets,
      Action.perform_bind, hset]
  · exact (Workspace.ReadsOnly.loadAfter _ _).files_eq hload
  · obtain ⟨done, name, schema, registry, rfl, hprefix, hdone, hnot⟩ := hrefusal hwell
    obtain ⟨stored, hstored, hdifferent⟩ := Registry.exists_different hdone hnot
    have hsubset := hprefix.subset
    rw [List.append_subset] at hsubset
    exact ⟨name, schema, stored, rfl, hsubset.2 (List.mem_singleton_self _), hsubset.1 hstored,
      hdifferent⟩

/-- **Within each set of a run all definitions of a name are equal.**  If the run succeeds, so
are those of every set, read where the sets before it have left the workspace; and the table has
under each name the type that was written last, whichever set it comes from.  If two definitions
of a name in one set differ, the run is refused, the report and the files are as the sets before
have left them, and the refusal names one of two such definitions unless something else is wrong
with a document. -/
theorem definitions_agree (options : Options) (manifest : Manifest) (workspace : Workspace) :
    (∀ generation',
      (generate options manifest).perform (.start workspace) = (.ok (), generation') →
      ∃ types emitted, EmitsSets options (.start workspace) manifest types emitted ∧
        (∀ before label locations after, manifest = before ++ (label, locations) :: after →
          ∃ first reached documents next,
            EmitsSets options (.start workspace) before first reached ∧
            Workspace.ReadsAll reached.workspace locations documents next ∧
            Registry.Consistent (Schema.definitionsIn documents)) ∧
        ∀ name type, generation'.report.table.find? name = some type ↔
          type.name = name ∧ ∃ earlier later, types = earlier ++ type :: later ∧
          ∀ other ∈ later, other.name ≠ name) ∧
    ∀ before label first rest after types reached documents next,
      manifest = before ++ (label, first ++ rest) :: after →
      EmitsSets options (.start workspace) before types reached →
      Workspace.ReadsAll reached.workspace first documents next →
      ¬Registry.Consistent (Schema.definitionsIn documents) →
      ∃ error generation',
        (generate options manifest).perform (.start workspace) = (.error error, generation') ∧
        generation'.report = reached.report ∧
        generation'.workspace.files = reached.workspace.files ∧
        ((∀ document ∈ documents, Schema.WellFormed "" document) →
          ∃ name schema stored, error = .schema (.invalid (.definedTwice name) schema) ∧
            (name, schema) ∈ Schema.definitionsIn documents ∧
            (name, stored) ∈ Schema.definitionsIn documents ∧
            stored.same schema = false) := by
  constructor
  · intro generation' hrun
    rw [generate, Action.perform_seq_eq_ok_iff] at hrun
    obtain ⟨emitted, hsets, hfinish⟩ := hrun
    obtain ⟨types, hemits⟩ := emitSets_eq_ok_iff.1 hsets
    refine ⟨types, emitted, hemits, ?_, fun name type => ?_⟩
    · rintro before label locations after rfl
      exact hemits.consistent
    · rw [report_of_finish hfinish, hemits.table_eq]
      exact Table.find?_insertAll_eq_some_iff
  · rintro before label first rest after types reached documents next rfl hbefore hreads
      hconflict
    exact exists_error_of_conflict hbefore hreads hconflict rest after

/-- The documents of the two colors. -/
def colorDocuments : List Json := [enumOf "art.Color" "RED", enumOf "art.Color" "BLUE"]

theorem definitionsIn_colorDocuments :
    Schema.definitionsIn colorDocuments =
      [("art.Color", enumOf "art.Color" "RED"), ("art.Color", enumOf "art.Color" "BLUE")] := by
  simp only [colorDocuments, Schema.definitionsIn, List.flatMap_cons, List.flatMap_nil,
    Schema.definitions_eq]
  rfl

/-- They define one name in two ways. -/
theorem not_consistent_colorDocuments :
    ¬Registry.Consistent (Schema.definitionsIn colorDocuments) := by
  intro hconsistent
  rw [definitionsIn_colorDocuments] at hconsistent
  have hsame :=
    hconsistent "art.Color" _ _ List.mem_cons_self
      (List.mem_cons_of_mem _ (List.mem_singleton_self _))
  exact absurd hsame (by decide)

theorem wellFormed_colorDocuments :
    ∀ document ∈ colorDocuments, Schema.WellFormed "" document := by
  have hred : Schema.qualifyIn [] "" (enumOf "art.Color" "RED") =
      (.ok (enumOf "art.Color" "RED"), [("art.Color", enumOf "art.Color" "RED")]) := rfl
  have hblue : Schema.qualifyIn [] "" (enumOf "art.Color" "BLUE") =
      (.ok (enumOf "art.Color" "BLUE"), [("art.Color", enumOf "art.Color" "BLUE")]) := rfl
  exact List.forall_mem_cons.2 ⟨((Schema.qualifies _ _ _ _ _).1 hred).1,
    List.forall_mem_singleton.2 ((Schema.qualifies _ _ _ _ _).1 hblue).1⟩

theorem parse_colorDocuments :
    Json.parse (enumOf "art.Color" "RED").compact = .ok (enumOf "art.Color" "RED") ∧
      Json.parse (enumOf "art.Color" "BLUE").compact = .ok (enumOf "art.Color" "BLUE") := by
  constructor <;> cbv

theorem loadJson_red :
    (Workspace.loadJson "red.json").perform colorWorkspace =
      (.ok (enumOf "art.Color" "RED"), colorWorkspace) :=
  Workspace.perform_loadJson_of_readText ⟨by decide, by decide⟩ (by decide +kernel)
    parse_colorDocuments.1

/-- The workspace once the blue color has been asked for. -/
def askedWorkspace : Workspace :=
  { colorWorkspace with outside := (colorOutside.fetch "http:blue").2 }

theorem loadJson_blue :
    (Workspace.loadJson "http:blue").perform colorWorkspace =
      (.ok (enumOf "art.Color" "BLUE"), askedWorkspace) :=
  Workspace.perform_loadJson_of_document (by decide) (by decide) rfl parse_colorDocuments.2

/-- The settings of a run with a formatter that does nothing. -/
def trueOptions : Options := { colorOptions with formatter := some "true" }

/-- One color in a set is written, and a formatter is started.  Two colors of one name in a set
are a conflict: nothing is reported, no file is changed, and the refusal names a color. -/
theorem definitions_agree_colors :
    (∃ generation' documents next,
      (generate trueOptions [("blue", ["http:blue"])]).perform (.start colorWorkspace) =
          (.ok (), generation') ∧
        generation'.workspace.outside.asked =
          [.document "http:blue", .program "true" ["out/art"]] ∧
        Workspace.ReadsAll colorWorkspace ["http:blue"] documents next ∧
        Registry.Consistent (Schema.definitionsIn documents)) ∧
    ∃ error generation',
      (generate trueOptions [("both", ["red.json", "http:blue"])]).perform
          (.start colorWorkspace) = (.error error, generation') ∧
        generation'.report = .empty ∧
        generation'.workspace.files = colorWorkspace.files ∧
        ∃ name schema, error = .schema (.invalid (.definedTwice name) schema) ∧
          (name, schema) ∈ Schema.definitionsIn colorDocuments := by
  obtain ⟨hagree, -⟩ := definitions_agree trueOptions [("blue", ["http:blue"])] colorWorkspace
  obtain ⟨-, hconflict⟩ :=
    definitions_agree trueOptions [("both", ["red.json", "http:blue"])] colorWorkspace
  constructor
  · let outcome :=
      (generate trueOptions [("blue", ["http:blue"])]).perform (.start colorWorkspace)
    have hran : outcome.1.isOk = true ∧ outcome.2.workspace.outside.asked =
        [.document "http:blue", .program "true" ["out/art"]] := by
      decide +kernel
    obtain ⟨generation', hrun⟩ := exists_eq_ok hran.1
    rw [show outcome = _ from hrun] at hran
    obtain ⟨types, emitted, -, hsets, -⟩ := hagree generation' hrun
    obtain ⟨first, reached, documents, next, hbefore, hreads, hconsistent⟩ :=
      hsets [] "blue" ["http:blue"] [] rfl
    cases hbefore
    exact ⟨generation', documents, next, hrun, hran.2, hreads, hconsistent⟩
  · obtain ⟨error, generation', hrun, hreport, hfiles, hrefusal⟩ :=
      hconflict [] "both" ["red.json", "http:blue"] [] [] [] _ colorDocuments _ rfl (.nil _)
        (.cons loadJson_red (.cons loadJson_blue (.nil _))) not_consistent_colorDocuments
    obtain ⟨name, schema, -, herror, hmem, -⟩ := hrefusal wellFormed_colorDocuments
    exact ⟨error, generation', hrun, hreport, hfiles, name, schema, herror, hmem⟩

/-- Two different colors of one name in two sets are no conflict: both sets are read and
written, and the entry of the first one is replaced. -/
theorem generate_replaces_color :
    ∃ reached generation',
      Workspace.ReadsAll colorWorkspace ["red.json"] [enumOf "art.Color" "RED"] colorWorkspace ∧
      (emitSets colorOptions [("red", ["red.json"])]).perform (.start colorWorkspace) =
        (.ok (), reached) ∧
      reached.report.table.enum? "art.Color" = some ⟨"art.Color", ["RED"], none⟩ ∧
      Workspace.ReadsAll reached.workspace ["blue.json"] [enumOf "art.Color" "BLUE"]
        reached.workspace ∧
      ¬Registry.Consistent
        (Schema.definitionsIn [enumOf "art.Color" "RED", enumOf "art.Color" "BLUE"]) ∧
      (generate colorOptions (colorManifest "blue.json")).perform (.start colorWorkspace) =
        (.ok (), generation') ∧
      generation'.report.table.enum? "art.Color" = some ⟨"art.Color", ["BLUE"], none⟩ := by
  let first := (emitSets colorOptions [("red", ["red.json"])]).perform (.start colorWorkspace)
  let outcome :=
    (generate colorOptions (colorManifest "blue.json")).perform (.start colorWorkspace)
  have hfirst : first.1.isOk = true ∧
      first.2.report.table.enum? "art.Color" = some ⟨"art.Color", ["RED"], none⟩ := by
    decide +kernel
  -- Writing the first set leaves the file of the second one as it was.
  have hfile : first.2.workspace.files.readText ⟨"blue.json"⟩ =
        .ok (enumOf "art.Color" "BLUE").compact ∧
      first.2.workspace.outside.isAddress "blue.json" = false := by
    decide +kernel
  have hran : outcome.1.isOk = true ∧
      outcome.2.report.table.enum? "art.Color" = some ⟨"art.Color", ["BLUE"], none⟩ := by
    decide +kernel
  obtain ⟨reached, hreached⟩ := exists_eq_ok hfirst.1
  obtain ⟨generation', hrun⟩ := exists_eq_ok hran.1
  rw [show first = _ from hreached] at hfirst hfile
  rw [show outcome = _ from hrun] at hran
  have hblue := Workspace.perform_loadJson_of_readText ⟨by decide, hfile.2⟩ hfile.1
    parse_colorDocuments.2
  exact ⟨reached, generation', .cons loadJson_red (.nil _), hreached, hfirst.2,
    .cons hblue (.nil _), not_consistent_colorDocuments, hrun, hran.2⟩

end Generation

end AvroBindings
