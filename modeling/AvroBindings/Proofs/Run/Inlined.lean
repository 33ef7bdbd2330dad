import AvroBindings.Proofs.NamedType.Inlined
import AvroBindings.Proofs.Run.Definitions
import AvroBindings.Proofs.Table.Same
import AvroBindings.Run.Program

/-!
# Loading in order and inlining

A definition in a document of its own, loaded before a document that refers to it, does what the
definition does in the place of one of the references.

## Main Definitions

* `Registry.AgreesWith` — two lists of definitions have the same names, and describe the same
  types under them.

## Main Statements

* `Schema.Inlines.agreesWith` — the definitions of the two documents agree with those of the
  inlined one.
* `Workspace.loaded_agrees_inlined` — so do the registries, the names of the roots and the
  tables.

## Design Notes

**Spelling.**  The two registries need not have equal schemas under one name.  A definition that
the reference stood in has the whole definition there, and where a name is defined more than
once the last spelling is kept, which can be another one.  Descriptions see neither, but for the
order of members in a default.

**Order.**  The definition comes first when it is loaded first, and where the reference stood
when it is inlined.  A table shows this only in the order of its entries, unless two names
become one without their leading text.
-/

namespace AvroBindings

namespace Registry

/-- **Definitions agree with others**: each has one of its name among the others that describes
the same type. -/
def AgreesWith (definitions others : List (String × Json)) : Prop :=
  ∀ entry ∈ definitions, ∃ other ∈ others, other.1 = entry.1 ∧
    ∀ lead type, NamedType.ofSchema lead entry.2 = .ok type ↔
      NamedType.ofSchema lead other.2 = .ok type

/-- Definitions that agree with others have their names. -/
theorem AgreesWith.mem_keys {definitions others : List (String × Json)}
    (h : AgreesWith definitions others) {name : String}
    (hname : name ∈ Entries.keys definitions) : name ∈ Entries.keys others := by
  obtain ⟨x, hx⟩ := Entries.mem_keys.1 hname
  obtain ⟨⟨other, y⟩, hy, hother, -⟩ := h _ hx
  obtain rfl : other = name := hother
  exact Entries.mem_keys.2 ⟨y, hy⟩

/-- What is in a registry that definitions were entered into: of each name one of them. -/
theorem mem_of_enterAll_nil {registry : Registry} {definitions : List (String × Json)}
    (hwell : ∀ definition ∈ definitions, definition.2.wellFormed = true)
    (h : enterAll [] definitions = some registry) :
    Consistent definitions ∧ (∀ entry ∈ registry, entry ∈ definitions) ∧
      ∀ name, name ∈ Entries.keys registry ↔ name ∈ Entries.keys definitions := by
  have hnodup : (Entries.keys ([] : Registry)).Nodup := .nil
  have hnone : ∀ entry ∈ ([] : Registry), entry.2.wellFormed = true := by simp
  obtain ⟨hconsistent, rfl⟩ := (enterAll_eq_some_iff hnodup hnone hwell).1 h
  refine ⟨hconsistent, fun entry hentry => ?_, fun name => ?_⟩
  · exact (mem_or_mem_of_enterAll h entry hentry).resolve_left List.not_mem_nil
  · exact Entries.mem_keys_ofPairs

/-- Registries of definitions that agree describe equal types. -/
theorem AgreesWith.describesAs {registry registry' : Registry}
    {definitions others : List (String × Json)} (h : AgreesWith definitions others)
    (hothers : ∀ other ∈ others, other.2.wellFormed = true) (hconsistent : Consistent others)
    (hmem : ∀ entry ∈ registry, entry ∈ definitions)
    (hmem' : ∀ entry ∈ registry', entry ∈ others) (lead : String) :
    DescribesAs lead registry registry' := by
  intro name x y type hx hy htype
  obtain ⟨⟨other, z⟩, hz, hother, hdescribed⟩ := h _ (hmem _ hx)
  obtain rfl : other = name := hother
  have hy' := hmem' _ hy
  -- The definition that describes the same type and the one that was kept have one name, so
  -- they are equal.
  exact NamedType.exists_same_of_same (hothers _ hz) (hothers _ hy')
    (hconsistent other z y hz hy') ((hdescribed lead type).1 htype)

end Registry

namespace Schema

variable {name scope : String} {definition schema schema' : Json}

/-- **The definitions of two documents agree with those of the inlined one**, either way. -/
theorem Inlines.agreesWith (h : Inlines name definition scope schema schema')
    (hname : StatesName name definition) (hdefinition : definition.wellFormed = true)
    (hwell : schema.wellFormed = true) :
    Registry.AgreesWith (definitions "" definition ++ definitions scope schema)
      (definitions scope schema') ∧
      Registry.AgreesWith (definitions scope schema')
        (definitions "" definition ++ definitions scope schema) := by
  obtain ⟨before, after, after', hbefore, hafter, hrespelled⟩ := h.putIn hname hwell
  have hsame : ∀ {entries : List (String × Json)} {entry : String × Json}, entry ∈ entries →
      ∃ other ∈ entries, other.1 = entry.1 ∧
        ∀ lead type, NamedType.ofSchema lead entry.2 = .ok type ↔
          NamedType.ofSchema lead other.2 = .ok type :=
    fun hmem => ⟨_, hmem, rfl, fun _ _ => Iff.rfl⟩
  rw [hbefore, hafter]
  constructor
  · intro entry hentry
    rw [List.mem_append, List.mem_append] at hentry
    rcases hentry with hmem | hmem | hmem
    · exact hsame (by simp [hmem])
    · exact hsame (by simp [hmem])
    · obtain ⟨other, hother, hrespelling⟩ := exists_right_of_forall₂ hrespelled hmem
      exact ⟨other, by simp [hother], hrespelling.fst_eq.symm, fun lead =>
        hrespelling.ofSchema_iff hname hdefinition lead⟩
  · intro entry hentry
    rw [List.mem_append, List.mem_append] at hentry
    rcases hentry with (hmem | hmem) | hmem
    · exact hsame (by simp [hmem])
    · exact hsame (by simp [hmem])
    · obtain ⟨other, hother, hrespelling⟩ := exists_left_of_forall₂ hrespelled hmem
      exact ⟨other, by simp [hother], hrespelling.fst_eq, fun lead type =>
        (hrespelling.ofSchema_iff hname hdefinition lead type).symm⟩

end Schema

namespace Workspace

variable {workspace workspace' : Workspace} {first second : String}
  {loaded parsed : ParsedSchema}

/-- Two documents that are read are loaded if the definitions of both can be entered; the second
is the root. -/
theorem entered_of_loadDocuments {document document' : Json}
    (hreads : ReadsAll workspace [first, second] [document, document'] workspace')
    (hload : (loadDocuments [first, second]).perform workspace = (.ok loaded, workspace')) :
    loaded.schema = Schema.qualified "" document' ∧
      Registry.enterAll [] (Schema.definitions "" document ++ Schema.definitions "" document') =
        some loaded.named := by
  cases hreads with
  | cons hread hreads =>
      cases hreads with
      | cons hread' hreads =>
          cases hreads
          obtain ⟨_, next, schema, named, hfirst, hqualify, hload⟩ :=
            perform_loadAfter_cons_eq_ok_iff.1 hload
          obtain ⟨hdocument, rfl⟩ := Prod.mk.inj (hread.symm.trans hfirst)
          obtain rfl := Except.ok.inj hdocument
          obtain ⟨_, last, schema', named', hsecond, hqualify', hload⟩ :=
            perform_loadAfter_cons_eq_ok_iff.1 hload
          obtain ⟨hdocument, rfl⟩ := Prod.mk.inj (hread'.symm.trans hsecond)
          obtain rfl := Except.ok.inj hdocument
          obtain ⟨hloaded, -⟩ := Prod.mk.inj hload
          obtain rfl := Except.ok.inj hloaded
          obtain ⟨-, hentered, -⟩ := (Schema.qualifies "" _ _ _ _).1 hqualify
          obtain ⟨-, hentered', hschema⟩ := (Schema.qualifies "" _ _ _ _).1 hqualify'
          refine ⟨hschema, ?_⟩
          rw [Registry.enterAll_append, hentered]
          exact hentered'

/-- **Loading in order agrees with inlining.**  A record or an enum that states its full name is
loaded before a document with a reference to it, or stands in the document in the place of the
reference.  If both are accepted, the same names are registered.  The roots have the same name,
unless the document is the reference itself: then the loaded root has none, and the inlined one
is the definition.  Either both have a table or none has, whatever is taken off the names, and
if that makes no two names one the tables are equal, the order of entries aside. -/
theorem loaded_agrees_inlined {name : String} {definition schema schema' : Json}
    (hreads : ReadsAll workspace [first, second] [definition, schema] workspace')
    (hload : (loadDocuments [first, second]).perform workspace = (.ok loaded, workspace'))
    (hname : Schema.StatesName name definition)
    (hinlines : Schema.Inlines name definition "" schema schema')
    (hparse : Schema.parse schema' = .ok parsed) :
    (∀ full, full ∈ Entries.keys loaded.named ↔ full ∈ Entries.keys parsed.named) ∧
    ((∀ text, schema ≠ .string text) → loaded.rootName? = parsed.rootName?) ∧
    (∀ text, schema = .string text → loaded.rootName? = none ∧ parsed.rootName? = some name) ∧
    ∀ lead,
      ((∃ table, Table.ofParsed loaded lead = .ok table) ↔
        ∃ table, Table.ofParsed parsed lead = .ok table) ∧
      (loaded.named.StripsApart lead → ∀ table table', Table.ofParsed loaded lead = .ok table →
        Table.ofParsed parsed lead = .ok table' → table.Same table') := by
  obtain ⟨hdefinition, hwell⟩ : definition.wellFormed = true ∧ schema.wellFormed = true := by
    cases hreads with
    | cons hread hreads =>
        cases hreads with
        | cons hread' => exact ⟨wellFormed_of_loadJson hread, wellFormed_of_loadJson hread'⟩
  have hwell' := hinlines.wellFormed hwell hdefinition
  obtain ⟨hroot, hentered⟩ := entered_of_loadDocuments hreads hload
  obtain ⟨-, hentered', hroot'⟩ :=
    (Schema.qualifies "" schema' _ _ _).1 (Schema.parse_eq_ok_iff.1 hparse)
  have hdefinitions :
      ∀ entry ∈ Schema.definitions "" definition ++ Schema.definitions "" schema,
      entry.2.wellFormed = true := by
    intro entry hentry
    rcases List.mem_append.1 hentry with hmem | hmem
    · exact Schema.wellFormed_of_mem_definitions hdefinition hmem
    · exact Schema.wellFormed_of_mem_definitions hwell hmem
  have hdefinitions' : ∀ entry ∈ Schema.definitions "" schema', entry.2.wellFormed = true :=
    fun _ => Schema.wellFormed_of_mem_definitions hwell'
  obtain ⟨hconsistent, hmem, hkeys⟩ := Registry.mem_of_enterAll_nil hdefinitions hentered
  obtain ⟨hconsistent', hmem', hkeys'⟩ := Registry.mem_of_enterAll_nil hdefinitions' hentered'
  obtain ⟨hagrees, hagrees'⟩ := hinlines.agreesWith hname hdefinition hwell
  have hnames : ∀ full, full ∈ Entries.keys loaded.named ↔
      full ∈ Entries.keys parsed.named := by
    intro full
    rw [hkeys, hkeys']
    exact ⟨hagrees.mem_keys, hagrees'.mem_keys⟩
  refine ⟨hnames, fun hreference => ?_, ?_, fun lead => ?_⟩
  · rw [ParsedSchema.rootName?, ParsedSchema.rootName?, hroot, hroot']
    exact (hinlines.textMember?_name_qualified hwell hreference).symm
  · rintro text rfl
    cases hinlines with
    | here hreference =>
        rw [ParsedSchema.rootName?, ParsedSchema.rootName?, hroot, hroot',
          hname.textMember?_name hdefinition]
        exact ⟨by rw [Schema.qualified]; rfl, rfl⟩
  · have hdescribes := hagrees.describesAs hdefinitions' hconsistent' hmem hmem' lead
    have hdescribes' := hagrees'.describesAs hdefinitions hconsistent hmem' hmem lead
    refine ⟨⟨Table.exists_ofParsed_of_describesAs hnames hdescribes,
      Table.exists_ofParsed_of_describesAs (fun full => (hnames full).symm) hdescribes'⟩, ?_⟩
    exact fun hapart table table' =>
      Table.same_ofParsed (.loaded hload) (.parsed hwell' hparse) hnames hdescribes hapart

/-- A workspace with two documents in two files. -/
def twoDocuments (document document' : Json) : Workspace :=
  ⟨⟨[(["first.json"], .file (.text document.compact)),
    (["second.json"], .file (.text document'.compact))]⟩, .alone Program.launch⟩

/-- Documents that are read back from their texts are read, and loaded as they are qualified. -/
theorem loadDocuments_twoDocuments {document document' q q' : Json}
    {registry registry' : Registry} (hparse : Json.parse document.compact = .ok document)
    (hparse' : Json.parse document'.compact = .ok document')
    (hqualify : Schema.qualifyIn [] "" document = (.ok q, registry))
    (hqualify' : Schema.qualifyIn registry "" document' = (.ok q', registry')) :
    ReadsAll (twoDocuments document document') ["first.json", "second.json"]
        [document, document'] (twoDocuments document document') ∧
      (loadDocuments ["first.json", "second.json"]).perform (twoDocuments document document') =
        (.ok ⟨q', registry'⟩, twoDocuments document document') := by
  have hread : (loadJson "first.json").perform (twoDocuments document document') =
      (.ok document, twoDocuments document document') :=
        perform_loadJson_of_readText (Outside.namesFile_alone _ (by decide)) rfl hparse
  have hread' : (loadJson "second.json").perform (twoDocuments document document') =
      (.ok document', twoDocuments document document') :=
        perform_loadJson_of_readText (Outside.namesFile_alone _ (by decide)) rfl hparse'
  refine ⟨.cons hread (.cons hread' (.nil _)), ?_⟩
  exact perform_loadAfter_cons_eq_ok_iff.2 ⟨document, _, q, registry, hread, hqualify,
    perform_loadAfter_cons_eq_ok_iff.2 ⟨document', _, q', registry', hread', hqualify', rfl⟩⟩

/-- A definition is loaded before a document that refers to it, and the document is parsed with
the definition in it. -/
structure AcceptedBoth (name : String) (definition schema schema' : Json)
    (loaded parsed : ParsedSchema) : Prop where
  reads : ReadsAll (twoDocuments definition schema) ["first.json", "second.json"]
    [definition, schema] (twoDocuments definition schema)
  loaded : (loadDocuments ["first.json", "second.json"]).perform
    (twoDocuments definition schema) =
    (.ok loaded, twoDocuments definition schema)
  inlines : Schema.Inlines name definition "" schema schema'
  parsed : Schema.parse schema' = .ok parsed

theorem AcceptedBoth.of_qualifyIn {name : String} {definition schema schema' q q' : Json}
    {registry registry' : Registry} (hparse : Json.parse definition.compact = .ok definition)
    (hparse' : Json.parse schema.compact = .ok schema)
    (hqualify : Schema.qualifyIn [] "" definition = (.ok q, registry))
    (hqualify' : Schema.qualifyIn registry "" schema = (.ok q', registry'))
    (hinlines : Schema.Inlines name definition "" schema schema')
    (hparsed : Schema.parse schema' = .ok parsed) :
    AcceptedBoth name definition schema schema' ⟨q', registry'⟩ parsed := by
  obtain ⟨hreads, hload⟩ := loadDocuments_twoDocuments hparse hparse' hqualify hqualify'
  exact ⟨hreads, hload, hinlines, hparsed⟩

/-- A record with one field, of a type. -/
def boxOf (type : Json) : Json :=
  .object [("type", .string "record"), ("name", .string "art.Box"),
    ("fields", .array [.object [("name", .string "color"), ("type", type)]])]

/-- A box has a definition where another has a reference if its field has. -/
theorem inlines_boxOf {name : String} {definition type type' : Json}
    (h : Schema.Inlines name definition (Name.space "art.Box") type type') :
    Schema.Inlines name definition "" (boxOf type) (boxOf type') := by
  have hname : Schema.declaredName "" [("type", .string "record"), ("name", .string "art.Box"),
      ("fields", .array [.object [("name", .string "color"), ("type", type)]])] =
        "art.Box" := by
    show Name.qualify "" "art.Box" = "art.Box"
    decide
  refine .field [] [("name", .string "color"), ("type", type)] [] rfl
    (show _ by decide) rfl rfl ?_
  rwa [hname]

/-- A red color. -/
def red : Json := Generation.enumOf "art.Color" "RED"

theorem statesName_red : Schema.StatesName "art.Color" red :=
  .of_isDotted rfl (List.mem_of_elem_eq_true rfl) rfl (by decide)

/-- A color that is loaded before a box of it agrees with the color in the box, and so do their
tables without the namespace. -/
theorem loaded_agrees_inlined_box :
    ∃ loaded parsed table table',
      AcceptedBoth "art.Color" red (boxOf (.string "Color")) (boxOf red) loaded parsed ∧
      Schema.StatesName "art.Color" red ∧ Entries.keys loaded.named = ["art.Color", "art.Box"] ∧
      (∀ full, full ∈ Entries.keys loaded.named ↔ full ∈ Entries.keys parsed.named) ∧
      loaded.rootName? = parsed.rootName? ∧ loaded.named.StripsApart "art." ∧
      Table.ofParsed loaded "art." = .ok table ∧ Table.ofParsed parsed "art." = .ok table' ∧
      table.Same table' := by
  have haccepted : AcceptedBoth "art.Color" red (boxOf (.string "Color")) (boxOf red)
      ⟨boxOf (.string "art.Color"),
        [("art.Color", red), ("art.Box", boxOf (.string "art.Color"))]⟩
      ⟨boxOf red, [("art.Color", red), ("art.Box", boxOf red)]⟩ :=
    .of_qualifyIn (by cbv) (by cbv) rfl rfl (inlines_boxOf (.here (by decide))) rfl
  have hapart : Registry.StripsApart "art." [("art.Color", red),
      ("art.Box", boxOf (.string "art.Color"))] :=
    Registry.stripsApart_iff.2 (by decide)
  obtain ⟨hkeys, hroot, -, htables⟩ :=
    loaded_agrees_inlined haccepted.reads haccepted.loaded statesName_red haccepted.inlines
      haccepted.parsed
  obtain ⟨table, htable⟩ : ∃ table,
      Table.ofParsed ⟨boxOf (.string "art.Color"),
        [("art.Color", red), ("art.Box", boxOf (.string "art.Color"))]⟩ "art." =
          .ok table := ⟨_, rfl⟩
  obtain ⟨table', htable'⟩ := (htables "art.").1.1 ⟨table, htable⟩
  exact ⟨_, _, table, table', haccepted, statesName_red, rfl, hkeys,
    hroot fun _ => Json.noConfusion, hapart, htable, htable',
    (htables "art.").2 hapart table table' htable htable'⟩

/-- A union of a color of another namespace and a color of the arts. -/
def colorsOf (color : Json) : Json := .array [Generation.enumOf "c.Color" "BLUE", color]

/-- Where inlining differs.  A document that is the reference itself is no definition, so the
loaded root has no name.  The full name of an enum whose name is that of a primitive type
depends on the namespace around it.  And where two names become one, the type that was defined
last is kept. -/
theorem loaded_differs_inlined :
    (∃ loaded parsed, AcceptedBoth "art.Color" red (.string "art.Color") red loaded parsed ∧
      loaded.rootName? = none ∧ parsed.rootName? = some "art.Color") ∧
    (∃ loaded parsed, AcceptedBoth "int" (Generation.enumOf "int" "ONE") (boxOf (.string "int"))
        (boxOf (Generation.enumOf "int" "ONE")) loaded parsed ∧
      Entries.keys loaded.named = ["int", "art.Box"] ∧
      Entries.keys parsed.named = ["art.int", "art.Box"]) ∧
    ∃ loaded parsed table table',
      AcceptedBoth "art.c.Color" (Generation.enumOf "art.c.Color" "RED")
        (colorsOf (.string "art.c.Color")) (colorsOf (Generation.enumOf "art.c.Color" "RED"))
        loaded parsed ∧
      Table.ofParsed loaded "art." = .ok table ∧ Table.ofParsed parsed "art." = .ok table' ∧
      ¬table.Same table' := by
  refine ⟨⟨_, _, .of_qualifyIn (by cbv) (by cbv) rfl rfl (.here (by decide)) rfl, rfl, rfl⟩,
    ⟨_, _, .of_qualifyIn (by cbv) (by cbv) rfl rfl (inlines_boxOf (.here (by decide))) rfl, rfl,
      rfl⟩, ?_⟩
  have haccepted : AcceptedBoth "art.c.Color" (Generation.enumOf "art.c.Color" "RED")
      (colorsOf (.string "art.c.Color")) (colorsOf (Generation.enumOf "art.c.Color" "RED"))
      ⟨colorsOf (.string "art.c.Color"),
        [("art.c.Color", Generation.enumOf "art.c.Color" "RED"),
        ("c.Color", Generation.enumOf "c.Color" "BLUE")]⟩
      ⟨colorsOf (Generation.enumOf "art.c.Color" "RED"),
        [("c.Color", Generation.enumOf "c.Color" "BLUE"),
        ("art.c.Color", Generation.enumOf "art.c.Color" "RED")]⟩ :=
    .of_qualifyIn (by cbv) (by cbv) rfl rfl
      (.item [Generation.enumOf "c.Color" "BLUE"] [] (.here (by decide))) rfl
  refine ⟨_, _, ⟨[("c.Color", .enum ⟨"c.Color", ["BLUE"], none⟩)]⟩,
    ⟨[("c.Color", .enum ⟨"c.Color", ["RED"], none⟩)]⟩, haccepted, rfl, rfl, fun hsame => ?_⟩
  have hcolor : Option.Rel NamedType.Same (some (.enum ⟨"c.Color", ["BLUE"], none⟩))
    (some (.enum ⟨"c.Color", ["RED"], none⟩)) := hsame "c.Color"
  rw [Option.rel_some_some, NamedType.same_enum_iff] at hcolor
  exact absurd hcolor (by decide)

end Workspace

end AvroBindings
