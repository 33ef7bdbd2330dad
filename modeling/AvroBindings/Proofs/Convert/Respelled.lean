import Mathlib.Data.Option.Basic
import Mathlib.Logic.Relation
import AvroBindings.Proofs.Convert.Language

/-!
# The spelling of float defaults

The default of a field of type `float` may be written as an integer or as the float that the
integer is read as.  Read by coercion the two are one value.  But an exact attempt at a record
fills in the defaults of fields that are left out and matches them exactly as well, so it
refuses the one and takes the other; and then a union may choose another alternative.

## Main Definitions

* `Table.Respelled` — two tables differ only in how the defaults of `float` fields are written.
* `Table.ComesTo` — the conversions that a conversion leads to.
* `Call.FillsRespelled` — a conversion leaves out a field whose default is written in two ways.

## Main Statements

* `convertStep_respelled` — one step gives the same with both tables, unless it is exact and
  fills in such a default.
* `Accepts.respelled` — the language of a type does not depend on the spelling.
* `ofPlain?_respelled` — a conversion none of whose exact attempts fills in such a default gives
  the same with both tables, and wherever both end both take the data or neither does.
* `ofPlain?_respelled_weight` — a union that chooses by the spelling.

## Design Notes

**Equal look-ups.**  Of the two tables only the look-ups are compared.  So they may have their
entries in different orders, and each default may be written in either way in either table.
-/

namespace AvroBindings

open Conversion

/-! ## Tables with other spellings -/

/-- **Two spellings of a float**: an integer, and the float that it is read as. -/
inductive Json.Respelled : Json → Json → Prop
  | toFloat (n : Int) : Respelled (.number (.int n)) (.number (.float (.ofInt n)))
  | toInt (n : Int) : Respelled (.number (.float (.ofInt n))) (.number (.int n))

/-- Two fields are the same, or of type `float` with two spellings of one default. -/
inductive Field.Respelled : Field → Field → Prop
  | refl (field : Field) : Respelled field field
  | default {field : Field} {default default' : Json} (float : field.type = .primitive .float)
      (spelled : field.default = some default) (h : default.Respelled default') :
      Respelled field { field with default := some default' }

/-- Two named types are the same but for the spellings of defaults. -/
inductive NamedType.Respelled : NamedType → NamedType → Prop
  | enum (e : Enumeration) : Respelled (.enum e) (.enum e)
  | record {r : Record} {fields : List Field}
      (h : List.Forall₂ Field.Respelled r.fields fields) :
      Respelled (.record r) (.record { r with fields := fields })

/-- **Two tables differ only in spellings** of the defaults of `float` fields. -/
def Table.Respelled (table table' : Table) : Prop :=
  ∀ name, Option.Rel NamedType.Respelled (table.find? name) (table'.find? name)

theorem Json.Respelled.symm {x y : Json} (h : x.Respelled y) : y.Respelled x := by
  cases h with
  | toFloat n => exact .toInt n
  | toInt n => exact .toFloat n

theorem Field.Respelled.symm {field field' : Field} (h : field.Respelled field') :
    field'.Respelled field := by
  cases h with
  | refl => exact .refl field
  | @default default default' float spelled h =>
      obtain ⟨name, type, _, doc⟩ := field
      obtain rfl : _ = some default := spelled
      exact @Field.Respelled.default ⟨name, type, some default', doc⟩ default' default float
        rfl h.symm

theorem NamedType.Respelled.symm {type type' : NamedType} (h : type.Respelled type') :
    type'.Respelled type := by
  cases h with
  | enum e => exact .enum e
  | @record r fields h =>
      exact @NamedType.Respelled.record { r with fields := fields } r.fields
        (h.flip.imp fun _ _ => Field.Respelled.symm)

theorem Table.Respelled.symm {table table' : Table} (h : table.Respelled table') :
    table'.Respelled table :=
  fun name => rel_symm (fun _ _ => NamedType.Respelled.symm) (h name)

namespace Field.Respelled

variable {field field' : Field}

theorem name_eq (h : field.Respelled field') : field'.name = field.name := by
  cases h <;> rfl

theorem type_eq (h : field.Respelled field') : field'.type = field.type := by
  cases h <;> rfl

/-- A default is kept, or is one of two spellings. -/
theorem default_cases (h : field.Respelled field') :
    field'.default = field.default ∨ ∃ default default', field.type = .primitive .float ∧
      field.default = some default ∧ field'.default = some default' ∧
      default.Respelled default' := by
  cases h with
  | refl => exact .inl rfl
  | default float spelled h => exact .inr ⟨_, _, float, spelled, rfl, h⟩

end Field.Respelled

/-- A table refers to the same enums. -/
theorem Table.Respelled.refersToEnum_eq {table table' : Table} (h : table.Respelled table') :
    table'.refersToEnum = table.refersToEnum := by
  funext ty
  cases ty with
  | named name =>
      show ((table'.find? name).bind NamedType.enum?).isSome =
        ((table.find? name).bind NamedType.enum?).isSome
      rcases rel_cases (h name) with ⟨hnone, hnone'⟩ | ⟨type, type', hfound, hfound', htype⟩
      · rw [hnone, hnone']
      · rw [hfound, hfound']
        cases htype <;> rfl
  | _ => rfl

theorem Table.Respelled.exactOrder_eq {table table' : Table} (h : table.Respelled table')
    (alternatives : List Descriptor) :
    table'.exactOrder alternatives = table.exactOrder alternatives := by
  rw [exactOrder, exactOrder, h.refersToEnum_eq]

/-! ## One step -/

/-- **A conversion fills in a default of two spellings**: the data is an object for a record and
lacks the member of a field whose default is not the same in both tables. -/
def Call.FillsRespelled (table table' : Table) (call : Call) : Prop :=
  ∃ name r r' members, call.type = .named name ∧ call.plain = .object members ∧
    table.find? name = some (.record r) ∧ table'.find? name = some (.record r') ∧
    ∃ pair ∈ r.fields.zip r'.fields, members.lookup pair.1.name = none ∧
    pair.1.default ≠ pair.2.default

section Step

variable {part : PartConversion} {matching : Matching} {members : List (String × Json)}

/-- The conversions of the parts do not tell spellings apart when they coerce. -/
def BlindToSpelling (part : PartConversion) : Prop :=
  ∀ x y, x.Respelled y →
    part .coercing (.primitive .float) x = part .coercing (.primitive .float) y

theorem convertField_respelled (blind : BlindToSpelling part) {record : String}
    {field field' : Field} (h : field.Respelled field')
    (exact : matching = .exact → members.lookup field.name = none →
      field.default = field'.default) :
    convertField part matching record members field =
      convertField part matching record members field' := by
  rw [convertField, convertField, h.name_eq, h.type_eq]
  cases hlookup : members.lookup field.name with
  | some plain => rfl
  | none =>
      rcases h.default_cases with
        hsame | ⟨default, default', float, hdefault, hdefault', hspelled⟩
      · rw [hsame]
      · cases matching with
        | exact => rw [exact rfl hlookup]
        | coercing =>
            rw [hdefault, hdefault', float, Option.none_or, Option.none_or]
            dsimp only
            rw [blind default default' hspelled]

theorem convertFields_respelled (blind : BlindToSpelling part) {record : String}
    {fields fields' : List Field} (h : List.Forall₂ Field.Respelled fields fields')
    (exact : matching = .exact → ∀ pair ∈ fields.zip fields',
      members.lookup pair.1.name = none → pair.1.default = pair.2.default) :
    convertFields part matching record members fields =
      convertFields part matching record members fields' := by
  induction h with
  | nil => rfl
  | @cons field field' rest rest' hfield _ ih =>
      have hfirst : convertField part matching record members field =
          convertField part matching record members field' :=
        convertField_respelled blind hfield fun hmatching =>
          exact hmatching (field, field') List.mem_cons_self
      have hrest :=
        ih fun hmatching pair hpair => exact hmatching pair (List.mem_cons_of_mem _ hpair)
      rw [convertFields, convertFields, hfirst, hrest, hfield.name_eq]

theorem convertRecord_respelled (blind : BlindToSpelling part) {r : Record}
    {fields : List Field} (h : List.Forall₂ Field.Respelled r.fields fields)
    (exact : matching = .exact → ∀ pair ∈ r.fields.zip fields,
      members.lookup pair.1.name = none → pair.1.default = pair.2.default) :
    convertRecord part matching r members =
      convertRecord part matching { r with fields := fields } members := by
  have hundeclared :
      (fun member : String × Json =>
        (Record.field? { r with fields := fields } member.1).isNone) = fun member =>
          (r.field? member.1).isNone := funext fun member =>
            Record.isNone_field?_eq (h.flip.imp fun _ _ => Field.Respelled.name_eq) member.1
  rw [convertRecord, convertRecord, hundeclared, convertFields_respelled blind h exact]

/-- **One step gives the same with both tables**, unless it is exact and fills in a default of
two spellings. -/
theorem convertStep_respelled {table table' : Table} (h : table.Respelled table')
    (blind : BlindToSpelling part) {ty : Descriptor} {plain : Json}
    (exact : matching = .exact → ¬Call.FillsRespelled table table' ⟨matching, ty, plain⟩) :
    convertStep table part matching ty plain = convertStep table' part matching ty plain := by
  cases ty with
  | union alternatives =>
      show convertUnion table part matching alternatives plain =
        convertUnion table' part matching alternatives plain
      rw [convertUnion, convertUnion, h.exactOrder_eq]
  | named name =>
      show convertNamed table part matching name plain =
        convertNamed table' part matching name plain
      rw [convertNamed, convertNamed]
      rcases rel_cases (h name) with ⟨hnone, hnone'⟩ | ⟨type, type', hfound, hfound', htype⟩
      · rw [hnone, hnone']
      · rw [hfound, hfound']
        cases htype with
        | enum e => rfl
        | record hfields =>
            cases plain with
            | object members =>
                refine convertRecord_respelled blind hfields
                  fun hmatching pair hpair hlookup => ?_
                by_contra hne
                exact exact hmatching ⟨name, _, _, members, rfl, rfl, hfound, hfound', pair,
                  hpair, hlookup, hne⟩
            | _ => rfl
  | _ => rfl

end Step

/-! ## Whole conversions -/

/-- **A conversion leads to another**: it asks for it, or for one that leads to it. -/
def Table.ComesTo (table : Table) : Call → Call → Prop :=
  Relation.ReflTransGen fun call part => table.Asks part call

/-- Without fuel nothing is told apart, and with fuel both spellings are the same float. -/
theorem blindToSpelling_convertWithin (table : Table) (fuel : Nat) :
    BlindToSpelling (convertWithin table fuel) := by
  intro x y h
  cases fuel with
  | zero => rfl
  | succ fuel => cases h <;> rfl

/-- **Conversions with the two tables run alike**, if no exact one among them fills in a default
of two spellings. -/
theorem convertWithin_respelled {table table' : Table} (h : table.Respelled table') (fuel : Nat)
    (call : Call)
    (exact : ∀ other, table.ComesTo call other → other.matching = .exact →
      ¬other.FillsRespelled table table') :
    convertWithin table fuel call.matching call.type call.plain =
      convertWithin table' fuel call.matching call.type call.plain := by
  induction fuel generalizing call with
  | zero => rfl
  | succ fuel ih =>
      have hparts : ∀ part ∈ table.calls call.matching call.type call.plain,
          convertWithin table fuel part.matching part.type part.plain =
            convertWithin table' fuel part.matching part.type part.plain := by
        exact fun part hpart => ih part fun other hother => exact other (.head hpart hother)
      calc convertStep table (convertWithin table fuel) call.matching call.type call.plain
          = convertStep table (convertWithin table' fuel) call.matching call.type call.plain :=
            convertStep_congr hparts
        _ = convertStep table' (convertWithin table' fuel) call.matching call.type call.plain :=
            convertStep_respelled h (blindToSpelling_convertWithin table' fuel)
              (exact call .refl)

/-- A conversion that ends with one table ends alike with the other. -/
theorem Table.Respelled.conversion_eq {table table' : Table} (h : table.Respelled table')
    (call : Call)
    (exact : ∀ other, table.ComesTo call other → other.matching = .exact →
      ¬other.FillsRespelled table table') :
    (conversion table call.matching call.type call.plain).run =
      (conversion table' call.matching call.type call.plain).run := by
  refine Option.ext fun r => ⟨fun hr => ?_, fun hr => ?_⟩
  · have hwithin : (convertWithin table _ call.matching call.type call.plain).run = some r := hr
    rw [convertWithin_respelled h _ call exact] at hwithin
    exact conversion_eq_of_convertWithin hwithin
  · have hwithin : (convertWithin table' _ call.matching call.type call.plain).run = some r :=
      hr
    rw [← convertWithin_respelled h _ call exact] at hwithin
    exact conversion_eq_of_convertWithin hwithin

/-! ## The language -/

/-- **The language of a type does not depend on the spelling**: `float` takes integers as well
as floats. -/
theorem Accepts.respelled {table table' : Table} (h : table.Respelled table') {ty : Descriptor}
    {plain : Json} (haccepts : Accepts table ty plain) : Accepts table' ty plain := by
  induction haccepts with
  | null => exact .null
  | boolean b => exact .boolean b
  | integer low high => exact .integer low high
  | float n => exact .float n
  | string s => exact .string s
  | absent inner => exact .absent inner
  | present _ ih => exact .present ih
  | union member _ ih => exact .union member ih
  | list _ ih => exact .list ih
  | map _ ih => exact .map ih
  | @enum name symbol e found declared =>
      obtain ⟨type', found', htype⟩ := exists_of_rel (h name) found
      cases htype
      exact .enum found' declared
  | @record name r members found declared _ _ left given filled =>
      obtain ⟨type', found', htype⟩ := exists_of_rel (h name) found
      cases htype with
      | @record _ fields hfields =>
          refine .record found' (fun member hmember => ?_)
            (fun field' hfield' plain hlookup => ?_)
            (fun field' hfield' default' hlookup hdefault' => ?_)
            fun field' hfield' hlookup hdefault' => ?_
          · obtain ⟨field, hfield, hname⟩ := declared member hmember
            obtain ⟨field', hfield', hrespelled⟩ := exists_right_of_forall₂ hfields hfield
            exact ⟨field', hfield', hrespelled.name_eq.trans hname⟩
          · obtain ⟨field, hfield, hrespelled⟩ := exists_left_of_forall₂ hfields hfield'
            rw [hrespelled.type_eq]
            exact given field hfield plain (hrespelled.name_eq ▸ hlookup)
          · obtain ⟨field, hfield, hrespelled⟩ := exists_left_of_forall₂ hfields hfield'
            rw [hrespelled.name_eq] at hlookup
            rw [hrespelled.type_eq]
            rcases hrespelled.default_cases with hsame | ⟨_, other, float, _, hother, hspelled⟩
            · exact filled field hfield default' hlookup (hsame ▸ hdefault')
            · -- Both spellings are numbers, which `float` takes.
              obtain rfl := Option.some.inj (hother.symm.trans hdefault')
              rw [float]
              cases hspelled <;> exact .float _
          · obtain ⟨field, hfield, hrespelled⟩ := exists_left_of_forall₂ hfields hfield'
            rw [hrespelled.name_eq] at hlookup
            rw [hrespelled.type_eq]
            rcases hrespelled.default_cases with hsame | ⟨_, _, _, _, hother, _⟩
            · exact left field hfield hlookup (hsame ▸ hdefault')
            · rw [hdefault'] at hother
              contradiction

/-! ## The converter and the spelling of defaults -/

/-- **The spelling of a float default matters to exact attempts only.**  For tables that differ
only in the spelling of `float` defaults: if no exact attempt that a conversion leads to fills
in a default of two spellings, the conversion gives the same with both, the faults included; and
wherever both conversions end, both take the data or neither does. -/
theorem ofPlain?_respelled {table table' : Table} (h : table.Respelled table') (ty : Descriptor)
    (plain : Json) :
    ((∀ call, table.ComesTo ⟨.coercing, ty, plain⟩ call → call.matching = .exact →
        ¬call.FillsRespelled table table') →
      Value.ofPlain? table ty plain = Value.ofPlain? table' ty plain) ∧
    ((∃ r, Value.ofPlain? table ty plain = some r) →
      (∃ r, Value.ofPlain? table' ty plain = some r) →
      ((∃ v, Value.ofPlain? table ty plain = some (.ok v)) ↔
        ∃ v, Value.ofPlain? table' ty plain = some (.ok v))) := by
  refine ⟨h.conversion_eq ⟨.coercing, ty, plain⟩, fun hends hends' => ?_⟩
  have haccepts : Accepts table ty plain ↔ Accepts table' ty plain :=
    ⟨Accepts.respelled h, Accepts.respelled h.symm⟩
  exact (conversion_succeeds_iff hends).trans
    (haccepts.trans (conversion_succeeds_iff hends').symm)

/-- Weights with a default, and notes. -/
def Table.scales (default : JsonNumber) : Table :=
  ⟨[("t.Weight", .record
    ⟨"t.Weight", [⟨"grams", .primitive .float, some (.number default), none⟩], none⟩),
    ("t.Note", .record ⟨"t.Note", [⟨"text", .optional (.primitive .string), none, none⟩],
      none⟩)]⟩

theorem respelled_scales :
    (Table.scales (.int 0)).Respelled (Table.scales (.float (.ofInt 0))) := by
  intro name
  by_cases hname : name ∈ ["t.Weight", "t.Note"]
  · rcases List.mem_pair.1 hname with rfl | rfl
    · exact .some (.record (.cons (.default rfl rfl (.toFloat 0)) .nil))
    · exact .some (.record (.cons (.refl _) .nil))
  · have hnone : ∀ default, (Table.scales default).find? name = none :=
      fun default => Entries.lookup_eq_none_iff.2 hname
    rw [hnone, hnone]
    exact .none

/-- **A union that chooses by the spelling.**  The empty object is a weight of no grams or a
note without a text.  Where the default of the grams is written as a float, the exact attempt
takes it as a weight, which is the first alternative; where it is written as an integer, the
attempt refuses it, and the note is next. -/
theorem ofPlain?_respelled_weight :
    (Table.scales (.int 0)).Respelled (Table.scales (.float (.ofInt 0))) ∧
      Value.ofPlain? (Table.scales (.int 0)) (.union [.named "t.Weight", .named "t.Note"])
        (.object []) =
        some (.ok (.record "t.Note" [("text", .null)])) ∧
      Value.ofPlain? (Table.scales (.float (.ofInt 0)))
        (.union [.named "t.Weight", .named "t.Note"]) (.object []) =
        some (.ok (.record "t.Weight" [("grams", .float (.ofInt 0))])) ∧
      Value.ofPlain? (Table.scales (.int 0)) (.union [.named "t.Weight", .named "t.Note"])
        (.object []) ≠
        Value.ofPlain? (Table.scales (.float (.ofInt 0)))
          (.union [.named "t.Weight", .named "t.Note"])
          (.object []) := by
  have hnote : Value.ofPlain? (Table.scales (.int 0))
      (.union [.named "t.Weight", .named "t.Note"]) (.object []) =
      some (.ok (.record "t.Note" [("text", .null)])) := rfl
  have hweight : Value.ofPlain? (Table.scales (.float (.ofInt 0)))
      (.union [.named "t.Weight", .named "t.Note"])
      (.object []) = some (.ok (.record "t.Weight" [("grams", .float (.ofInt 0))])) := rfl
  refine ⟨respelled_scales, hnote, hweight, ?_⟩
  rw [hnote, hweight]
  simp

/-- Parcels with a weight by default, and a label that is a number or a text. -/
def Table.parcels (default : JsonNumber) : Table :=
  ⟨[("t.Parcel", .record ⟨"t.Parcel",
    [⟨"grams", .primitive .float, some (.number default), none⟩,
      ⟨"label", .union [.primitive .integer, .primitive .string], none, none⟩], none⟩)]⟩

theorem respelled_parcels :
    (Table.parcels (.int 0)).Respelled (Table.parcels (.float (.ofInt 0))) := by
  intro name
  by_cases hname : name = "t.Parcel"
  · subst hname
    exact .some (.record (.cons (.default rfl rfl (.toFloat 0)) (.cons (.refl _) .nil)))
  · have hnone : ∀ default, (Table.parcels default).find? name = none :=
      fun default => Entries.lookup_eq_none_iff.2 (mt List.mem_singleton.1 hname)
    rw [hnone, hnone]
    exact .none

/-- A parcel with a label and no weight. -/
def boxParcel : Call :=
  ⟨.coercing, .named "t.Parcel", .object [("label", .string "box")]⟩

/-- What the conversion of the parcel leads to is itself or about data without depth. -/
theorem eq_or_flat_of_comesTo_boxParcel {call : Call}
    (h : (Table.parcels (.int 0)).ComesTo boxParcel call) :
    call = boxParcel ∨ call.plain.depth = 0 := by
  induction h with
  | refl => exact .inl rfl
  | @tail call part _ hask ih =>
      rcases ih with rfl | hflat
      · have hparts : part ∈ [⟨.coercing, .primitive .float, .number (.int 0)⟩,
          ⟨.coercing, .union [.primitive .integer, .primitive .string], .string "box"⟩] := hask
        rcases List.mem_pair.1 hparts with rfl | rfl <;> exact .inr rfl
      · rcases Table.calls_cases hask with
          ⟨hplain, -⟩ | ⟨hdepth, -⟩ | ⟨name, r, -, found, field, hfield, hdefault, -⟩
        · exact .inr (hplain ▸ hflat)
        · omega
        · have hmem : _ ∈ (Table.parcels (.int 0)).defaults :=
            List.mem_filterMap.2 ⟨field, Table.mem_fields found hfield, hdefault⟩
          rw [List.mem_singleton.1 hmem]
          exact .inr rfl

/-- A parcel whose weight is filled in.  The only exact attempts are at its label, and the
default is read by coercion, so both spellings give one weight. -/
theorem ofPlain?_respelled_parcel :
    (Table.parcels (.int 0)).Respelled (Table.parcels (.float (.ofInt 0))) ∧
      boxParcel.FillsRespelled (Table.parcels (.int 0)) (Table.parcels (.float (.ofInt 0))) ∧
      (∀ call, (Table.parcels (.int 0)).ComesTo boxParcel call → call.matching = .exact →
        ¬call.FillsRespelled (Table.parcels (.int 0)) (Table.parcels (.float (.ofInt 0)))) ∧
      Value.ofPlain? (Table.parcels (.int 0)) boxParcel.type boxParcel.plain =
        some (.ok
          (.record "t.Parcel" [("grams", .float (.ofInt 0)), ("label", .string "box")])) ∧
      Value.ofPlain? (Table.parcels (.float (.ofInt 0))) boxParcel.type boxParcel.plain =
        some (.ok (.record "t.Parcel"
          [("grams", .float (.ofInt 0)), ("label", .string "box")])) := by
  have hfills : boxParcel.FillsRespelled (Table.parcels (.int 0))
      (Table.parcels (.float (.ofInt 0))) := by
    refine ⟨"t.Parcel", _, _, _, rfl, rfl, rfl, rfl, _, List.mem_cons_self, rfl, ?_⟩
    simp
  have hexact : ∀ call, (Table.parcels (.int 0)).ComesTo boxParcel call →
      call.matching = .exact →
        ¬call.FillsRespelled (Table.parcels (.int 0)) (Table.parcels (.float (.ofInt 0))) := by
    rintro call hcall hmatching ⟨name, r, r', members, -, hmembers, -⟩
    rcases eq_or_flat_of_comesTo_boxParcel hcall with rfl | hflat
    · cases hmatching
    · rw [hmembers] at hflat
      cases hflat
  have hsame := (ofPlain?_respelled respelled_parcels boxParcel.type boxParcel.plain).1 hexact
  have hfloat : Value.ofPlain? (Table.parcels (.float (.ofInt 0))) boxParcel.type
      boxParcel.plain = some (.ok (.record "t.Parcel"
        [("grams", .float (.ofInt 0)), ("label", .string "box")])) := rfl
  exact ⟨respelled_parcels, hfills, hexact, hsame.trans hfloat, hfloat⟩

end AvroBindings
