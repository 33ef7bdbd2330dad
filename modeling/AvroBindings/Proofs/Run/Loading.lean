import AvroBindings.Proofs.Json.Reading
import AvroBindings.Proofs.Run.Action
import AvroBindings.Proofs.Schema.Registry

/-!
# Documents that have been read

A document on its own, or documents at several locations one after another: whichever way a
parsed schema came about, its registry is sound.

## Main Definitions

* `ParsedSchema.Read` — a parsed schema is what reading gave.
* `ParsedSchema.HasRoot` — its root is a document that was qualified in a sound registry.
* `Registry.ReferencesFound` — every reference in a registry names one of its entries.
* `Outside.NamesFile` — a location is the path of a file.
* `Workspace.ReadsOnly` — an action changes no file.

## Main Statements

* `ParsedSchema.Read.sound` — the registry is sound.
* `ParsedSchema.Read.exists_entry_of_root` — a root that is a definition is an entry.
-/

namespace AvroBindings

/-- **Every reference in a registry is found**: a text at a type position of one of its schemas
is the name of a primitive type or of an entry. -/
def Registry.ReferencesFound (registry : Registry) : Prop :=
  ∀ entry ∈ registry, ∀ name, Schema.Nested (.string name) entry.2 →
    name ∉ Schema.primitiveNames → name ∈ Entries.keys registry

/-- **A parsed schema was read**: it is a well-formed document qualified on its own, or what was
loaded from some locations. -/
inductive ParsedSchema.Read : ParsedSchema → Prop
  | parsed {document : Json} {parsed : ParsedSchema} (wellFormed : document.wellFormed = true)
      (accepted : Schema.parse document = .ok parsed) : Read parsed
  | loaded {locations : List String} {workspace workspace' : Workspace} {parsed : ParsedSchema}
      (accepted : (Workspace.loadDocuments locations).perform workspace =
        (.ok parsed, workspace')) :
      Read parsed

/-- **A parsed schema has a document as its root**, qualified in a sound registry. -/
def ParsedSchema.HasRoot (parsed : ParsedSchema) : Prop :=
  ∃ (registry : Registry) (document : Json), registry.Sound ∧ document.wellFormed = true ∧
    Schema.qualifyIn registry "" document = (.ok parsed.schema, parsed.named)

/-- **A location names a file**: it is neither that of standard input nor an address. -/
def Outside.NamesFile (outside : Outside) (location : String) : Prop :=
  location ≠ "-" ∧ outside.isAddress location = false

/-- Without a web every location but that of standard input names a file. -/
theorem Outside.namesFile_alone (launcher : Launcher) {location : String} (h : location ≠ "-") :
    (Outside.alone launcher).NamesFile location := ⟨h, rfl⟩

/-- The registry without entries is sound. -/
theorem Registry.Sound.nil : Registry.Sound [] := ⟨.nil, by simp, by simp, .nil⟩

theorem ParsedSchema.HasRoot.sound {parsed : ParsedSchema} (h : parsed.HasRoot) :
    parsed.named.Sound := by
  obtain ⟨registry, document, hsound, hwell, hqualify⟩ := h
  have hafter := (Schema.qualifyIn_sound hsound "" hwell).1
  rwa [hqualify] at hafter

namespace Workspace

variable {location : String} {workspace workspace' : Workspace}

theorem perform_readText_eq_ok_iff {path : Path} {text : String} :
    (readText path).perform workspace = (.ok text, workspace') ↔
      workspace.files.readText path = .ok text ∧ workspace' = workspace := by
  rw [readText, Action.perform_bind, Action.perform_get]
  dsimp only
  cases workspace.files.readText path with
  | ok value => simp [eq_comm]
  | error cause => simp

/-- Standard input gives the text that is on it, and nothing is on it afterwards. -/
theorem perform_readInput :
    readInput.perform workspace =
      (match workspace.outside.input with
        | .text text => .ok text
        | .bytes _ => .error (.file ⟨"<stdin>"⟩ .notText),
        { workspace with outside := workspace.outside.takeInput.2 }) := by
  rw [readInput, Action.perform_bind, Action.perform_get]
  dsimp only [Outside.takeInput]
  rw [Action.perform_bind, Action.perform_set]
  dsimp only
  cases workspace.outside.input <;> rfl

/-- An address gives the document that the web has for it, and has been asked for afterwards. -/
theorem perform_fetch :
    (fetch location).perform workspace =
      ((Response.document (workspace.outside.web workspace.outside.asked location)).mapError
          (.fetch location),
        { workspace with outside := (workspace.outside.fetch location).2 }) := by
  rw [fetch, Action.perform_bind, Action.perform_get]
  dsimp only [Outside.fetch]
  rw [Action.perform_bind, Action.perform_set]
  dsimp only
  cases Response.document (workspace.outside.web workspace.outside.asked location) <;> rfl

/-- **An action reads only**: whatever comes of it, it changes no file. -/
def ReadsOnly {α : Type} (action : Action Workspace α) : Prop :=
  ∀ workspace, (action.perform workspace).2.files = workspace.files

namespace ReadsOnly

theorem files_eq {α : Type} {action : Action Workspace α} (h : ReadsOnly action)
    {outcome : Except RunError α} (hrun : action.perform workspace = (outcome, workspace')) :
    workspace'.files = workspace.files := by
  have hfiles := h workspace
  rwa [hrun] at hfiles

theorem bind {α β : Type} {x : Action Workspace α} {f : α → Action Workspace β}
    (hx : ReadsOnly x) (hf : ∀ a, ReadsOnly (f a)) : ReadsOnly (x >>= f) := by
  intro workspace
  rw [Action.perform_bind]
  rcases hrun : x.perform workspace with ⟨_ | a, next⟩
  · exact hx.files_eq hrun
  · exact (hf a next).trans (hx.files_eq hrun)

theorem «return» {α : Type} (a : α) : ReadsOnly (pure a) := fun _ => rfl

theorem refusal {α : Type} (error : RunError) : ReadsOnly (throw error : Action Workspace α) :=
  fun _ => rfl

theorem readText (path : Path) : ReadsOnly (readText path) := by
  refine bind (fun _ => rfl) fun workspace => ?_
  cases workspace.files.readText path with
  | ok text => exact .return text
  | error cause => exact .refusal _

theorem readInput : ReadsOnly readInput := fun _ => by rw [perform_readInput]

theorem fetch (location : String) : ReadsOnly (fetch location) := fun _ => by rw [perform_fetch]

theorem readLocation (location : String) : ReadsOnly (readLocation location) := by
  unfold Workspace.readLocation
  split
  · exact readInput
  · refine bind (fun _ => rfl) fun workspace => ?_
    split
    · exact fetch location
    · exact readText ⟨location⟩

theorem loadJson (location : String) : ReadsOnly (loadJson location) := by
  refine bind (readLocation location) fun text => ?_
  cases Json.parse text with
  | ok json => exact .return json
  | error fault => exact .refusal _

/-- **Loading documents changes no file.** -/
theorem loadAfter (parsed : ParsedSchema) (locations : List String) :
    ReadsOnly (loadAfter parsed locations) := by
  induction locations generalizing parsed with
  | nil => exact .return parsed
  | cons location rest ih =>
      refine bind (loadJson location) fun document => ?_
      rcases Schema.qualifyIn parsed.named "" document with ⟨error | schema, named⟩
      · exact .refusal _
      · exact ih ⟨schema, named⟩

theorem loadDocuments (locations : List String) : ReadsOnly (loadDocuments locations) :=
  loadAfter _ locations

end ReadsOnly

/-- A document is loaded exactly if there is a text at its location, and a JSON tree in the
text. -/
theorem perform_loadJson_eq_ok_iff {json : Json} :
    (loadJson location).perform workspace = (.ok json, workspace') ↔
      ∃ text, (readLocation location).perform workspace = (.ok text, workspace') ∧
      Json.parse text = .ok json := by
  rw [loadJson, Action.perform_bind_eq_ok_iff]
  constructor
  · rintro ⟨text, next, hread, h⟩
    split at h
    next json' hparse =>
      obtain ⟨hjson, rfl⟩ := Prod.mk.inj h
      obtain rfl := Except.ok.inj hjson
      exact ⟨text, hread, hparse⟩
    next => simp at h
  · rintro ⟨text, hread, hparse⟩
    exact ⟨text, workspace', hread, by rw [hparse]; rfl⟩

/-- **Documents are loaded one after another**, each qualified in the registry of those before
it. -/
theorem perform_loadAfter_cons_eq_ok_iff {parsed parsed' : ParsedSchema} {rest : List String} :
    (loadAfter parsed (location :: rest)).perform workspace = (.ok parsed', workspace') ↔
      ∃ document next schema named,
        (loadJson location).perform workspace = (.ok document, next) ∧
        Schema.qualifyIn parsed.named "" document = (.ok schema, named) ∧
        (loadAfter ⟨schema, named⟩ rest).perform next = (.ok parsed', workspace') := by
  rw [loadAfter, Action.perform_bind_eq_ok_iff]
  constructor
  · rintro ⟨document, next, hload, h⟩
    split at h
    next schema named hqualify => exact ⟨document, next, schema, named, hload, hqualify, h⟩
    next => simp at h
  · rintro ⟨document, next, schema, named, hload, hqualify, h⟩
    exact ⟨document, next, hload, by rw [hqualify]; exact h⟩

/-- What is loaded from a location is a well-formed tree. -/
theorem wellFormed_of_loadJson {json : Json}
    (h : (loadJson location).perform workspace = (.ok json, workspace')) :
    json.wellFormed = true := by
  obtain ⟨text, -, hparse⟩ := perform_loadJson_eq_ok_iff.1 h
  exact Json.wellFormed_of_parse hparse

/-- Every document that is loaded is qualified in a sound registry. -/
theorem eq_or_hasRoot_of_loadAfter {parsed parsed' : ParsedSchema} {locations : List String}
    (hsound : parsed.named.Sound)
    (h : (loadAfter parsed locations).perform workspace = (.ok parsed', workspace')) :
    parsed' = parsed ∨ parsed'.HasRoot := by
  induction locations generalizing parsed workspace with
  | nil =>
      obtain ⟨hparsed, -⟩ := Prod.mk.inj h
      exact .inl (Except.ok.inj hparsed).symm
  | cons location rest ih =>
      obtain ⟨document, next, schema, named, hload, hqualify, hrest⟩ :=
        perform_loadAfter_cons_eq_ok_iff.1 h
      have hroot : ParsedSchema.HasRoot ⟨schema, named⟩ :=
        ⟨_, document, hsound, wellFormed_of_loadJson hload, hqualify⟩
      refine .inr ((ih hroot.sound hrest).elim (fun hparsed => ?_) id)
      exact hparsed ▸ hroot

/-! ### The web -/

/-- An address is asked of the web. -/
theorem perform_readLocation_of_isAddress (h : location ≠ "-")
    (haddress : workspace.outside.isAddress location = true) :
    (readLocation location).perform workspace = (fetch location).perform workspace := by
  rw [readLocation, if_neg h, Action.perform_bind, Action.perform_get]
  dsimp only
  rw [if_pos haddress]

/-- A document on the web is loaded, and its address has been asked for afterwards. -/
theorem perform_loadJson_of_document (h : location ≠ "-")
    (haddress : workspace.outside.isAddress location = true) {text : String} {json : Json}
    (hanswer : Response.document (workspace.outside.web workspace.outside.asked location) =
      .ok text) (hparse : Json.parse text = .ok json) :
    (loadJson location).perform workspace =
      (.ok json, { workspace with outside := (workspace.outside.fetch location).2 }) := by
  refine perform_loadJson_eq_ok_iff.2 ⟨text, ?_, hparse⟩
  rw [perform_readLocation_of_isAddress h haddress, perform_fetch, hanswer]
  rfl

/-! ### Files -/

/-- At a location that names a file there is the text of the file. -/
theorem perform_readLocation_of_namesFile (h : workspace.outside.NamesFile location)
    {text : String} :
    (readLocation location).perform workspace = (.ok text, workspace') ↔
      workspace.files.readText ⟨location⟩ = .ok text ∧ workspace' = workspace := by
  rw [readLocation, if_neg h.1, Action.perform_bind, Action.perform_get]
  dsimp only
  rw [h.2, if_neg Bool.false_ne_true, perform_readText_eq_ok_iff]

/-- A document in a file is loaded, and nothing else happens. -/
theorem perform_loadJson_of_readText (h : workspace.outside.NamesFile location) {text : String}
    {json : Json} (hread : workspace.files.readText ⟨location⟩ = .ok text)
    (hparse : Json.parse text = .ok json) :
    (loadJson location).perform workspace = (.ok json, workspace) :=
  perform_loadJson_eq_ok_iff.2
    ⟨text, (perform_readLocation_of_namesFile h).2 ⟨hread, rfl⟩, hparse⟩

/-- **Documents in files are loaded alike from any workspace with the same files.** -/
theorem perform_loadAfter_congr {parsed parsed' : ParsedSchema} {locations : List String}
    {other : Workspace} (houtside : other.outside = workspace.outside)
    (hfiles : ∀ location ∈ locations, workspace.outside.NamesFile location)
    (hsame : ∀ location ∈ locations, ∀ text, workspace.files.readText ⟨location⟩ = .ok text →
      other.files.readText ⟨location⟩ = .ok text)
    (h : (loadAfter parsed locations).perform workspace = (.ok parsed', workspace')) :
    workspace' = workspace ∧
      (loadAfter parsed locations).perform other = (.ok parsed', other) := by
  induction locations generalizing parsed with
  | nil =>
      obtain ⟨hparsed, rfl⟩ := Prod.mk.inj h
      exact ⟨rfl, congrArg (·, other) hparsed⟩
  | cons location rest ih =>
      rw [List.forall_mem_cons] at hfiles hsame
      obtain ⟨document, next, schema, named, hload, hqualify, hrest⟩ :=
        perform_loadAfter_cons_eq_ok_iff.1 h
      obtain ⟨text, hread, hparse⟩ := perform_loadJson_eq_ok_iff.1 hload
      obtain ⟨hread, rfl⟩ := (perform_readLocation_of_namesFile hfiles.1).1 hread
      obtain ⟨rfl, hagain⟩ := ih hfiles.2 hsame.2 hrest
      refine ⟨rfl, perform_loadAfter_cons_eq_ok_iff.2
        ⟨document, other, schema, named, ?_, hqualify, hagain⟩⟩
      exact perform_loadJson_of_readText (houtside ▸ hfiles.1) (hsame.1 text hread) hparse

end Workspace

namespace ParsedSchema.Read

variable {parsed : ParsedSchema}

/-- What was read has a document as its root, unless there was none. -/
theorem eq_or_hasRoot (h : parsed.Read) : parsed = ⟨.null, []⟩ ∨ parsed.HasRoot := by
  cases h with
  | parsed hwell haccepted =>
      exact .inr ⟨[], _, .nil, hwell, Schema.parse_eq_ok_iff.1 haccepted⟩
  | loaded haccepted =>
      have hempty : (ParsedSchema.mk .null []).named.Sound := .nil
      exact Workspace.eq_or_hasRoot_of_loadAfter hempty haccepted

/-- **The registry of a document that was read is sound.** -/
theorem sound (h : parsed.Read) : parsed.named.Sound := by
  rcases h.eq_or_hasRoot with rfl | hroot
  · exact .nil
  · exact hroot.sound

/-- **A root that is a definition is an entry of the registry**, under its name. -/
theorem exists_entry_of_root (h : parsed.Read) (hroot : Schema.IsDefinition parsed.schema) :
    ∃ name, parsed.rootName? = some name ∧ (name, parsed.schema) ∈ parsed.named := by
  rcases h.eq_or_hasRoot with rfl | ⟨registry, document, hsound, hwell, hqualify⟩
  · obtain ⟨kind, hkind, -⟩ := hroot
    simp [Json.textMember?, Json.member?] at hkind
  · obtain ⟨-, henter, hschema⟩ :=
      (Schema.qualifies "" document registry parsed.schema parsed.named).1 hqualify
    rw [hschema, Schema.isDefinition_qualified_iff hwell] at hroot
    obtain ⟨name, hown⟩ := Schema.exists_ownDefinition "" hroot
    rw [← hschema] at hown
    -- The definition that the root is was entered last.
    rw [Schema.definitions_eq, hown, Registry.enterAll_append, Option.bind_eq_some_iff]
      at henter
    obtain ⟨before, -, henter⟩ := henter
    rw [Registry.enterAll_cons, Option.bind_eq_some_iff] at henter
    obtain ⟨after, henter, hlast⟩ := henter
    obtain rfl := Option.some.inj hlast
    have hmem : (name, parsed.schema) ∈ parsed.named := by
      rw [(Registry.enter_eq_some_iff.1 henter).2]
      exact Entries.mem_insert_self _ _ _
    exact ⟨name, (h.sound.definition _ hmem).named, hmem⟩

end ParsedSchema.Read

end AvroBindings
