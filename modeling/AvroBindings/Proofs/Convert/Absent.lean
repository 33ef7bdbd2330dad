import AvroBindings.Proofs.Convert.ReadBack

/-!
# Absent fields and null

A field that is left out is null if it has no default and its type admits null.  It is then as
if null had been given for it, and null can be given for a field exactly if its type admits
null.

## Main Statements

* `conversion_record_of_null_member` — a record whose data gives null for a field, and one whose
  data leaves it out.
* `admitsNull_of_taken_record` — a field for which null stands admits null, if the record is
  taken.
* `absent_eq_null` — null at every type, and what follows for the fields of records.
* `conversion_twice` — a record with two fields of one name takes no null for them, but can do
  without them.

## Design Notes

**Repeated names.**  A record may declare two fields of one name, and one member stands for
both.  A null that the first of them would take is then a null for the second as well, which may
have a default that it uses where nothing is given, or a type that does not admit null.  So the
two ways to leave a field absent are the same only if all fields of the name have no default and
admit null, as they do where names are not repeated and the field is such a field.
-/

namespace AvroBindings

open Conversion

/-! ## Fields -/

section Fields

variable {table : Table} {part : PartConversion} {matching : Matching} {record : String}

/-- Fields that are converted alike from two objects are converted alike in a row. -/
theorem convertFields_congr {members members' : List (String × Json)} {fields : List Field}
    (h : ∀ field ∈ fields, convertField part matching record members field =
      convertField part matching record members' field) :
    convertFields part matching record members fields =
      convertFields part matching record members' fields := by
  induction fields with
  | nil => rfl
  | cons field rest ih =>
      rw [List.forall_mem_cons] at h
      rw [convertFields, convertFields, h.1, ih h.2]

/-- A field is looked up in the members beside one of another name. -/
theorem lookup_append_cons_of_ne {key other : String} (hne : other ≠ key) (plain : Json)
    (before after : List (String × Json)) :
    (before ++ (key, plain) :: after).lookup other = (before ++ after).lookup other := by
  rw [List.lookup_append, List.lookup_append, List.lookup_cons, beq_eq_false_iff_ne.2 hne]

/-- **A null that is given for a field and a field that is left out are converted alike**, if
the field has no default and its type admits null. -/
theorem convertField_of_null_member {field : Field} {before after : List (String × Json)}
    (absent : field.name ∉ Entries.keys (before ++ after)) (undefaulted : field.default = none)
    (nullable : field.type.admitsNull = true)
    (hnull : (part matching field.type .null).run = some (.ok .null)) :
    convertField part matching record (before ++ (field.name, .null) :: after) field =
      convertField part matching record (before ++ after) field := by
  have hleft : (before ++ after).lookup field.name = none := Entries.lookup_eq_none_iff.2 absent
  have hgiven : (before ++ (field.name, .null) :: after).lookup field.name = some .null := by
    rw [Entries.lookup_eq_none_iff, Entries.keys, List.map_append, List.mem_append, not_or]
      at hleft
    rw [List.lookup_append, Entries.lookup_eq_none_iff.2 hleft.1, Option.none_or,
      List.lookup_cons_self]
  rw [convertField, convertField, hleft, hgiven, undefaulted]
  dsimp only [Option.or_some, Option.some_or, Option.none_or]
  rw [if_pos nullable]
  refine ExceptT.ext ?_
  rw [run_adapt, hnull]
  rfl

end Fields

/-! ## Records -/

variable {table : Table} {matching : Matching} {name : String} {r : Record}

/-- **A record whose data gives null for a field is converted like one whose data leaves it
out**, if all fields of its name have no default and admit null. -/
theorem conversion_record_of_null_member {key : String} {before after : List (String × Json)}
    (found : table.find? name = some (.record r))
    (declared : ∃ field ∈ r.fields, field.name = key)
    (nullable : ∀ field ∈ r.fields, field.name = key → field.default = none ∧
      field.type.admitsNull = true)
    (absent : key ∉ Entries.keys (before ++ after)) :
    (conversion table matching (.named name) (.object (before ++ (key, .null) :: after))).run =
      (conversion table matching (.named name) (.object (before ++ after))).run := by
  have hknown : (r.field? key).isNone = false := by
    obtain ⟨field, hfield, hname⟩ := declared
    simpa [Record.field?] using ⟨field, hfield, hname⟩
  have hunknown :
      (before ++ (key, .null) :: after).find? (fun member => (r.field? member.1).isNone) =
      (before ++ after).find? fun member => (r.field? member.1).isNone := by
    rw [List.find?_append, List.find?_append, List.find?_cons_of_neg (by simp [hknown])]
  have hfields : convertFields (conversion table) matching r.name
      (before ++ (key, .null) :: after) r.fields =
      convertFields (conversion table) matching r.name (before ++ after) r.fields := by
    refine convertFields_congr fun field hfield => ?_
    by_cases hname : field.name = key
    · obtain ⟨undefaulted, admits⟩ := nullable field hfield hname
      subst hname
      refine convertField_of_null_member absent undefaulted admits ?_
      simpa [admits] using conversion_null table matching field.type
    · rw [convertField, convertField, lookup_append_cons_of_ne hname]
  rw [conversion_eq_step, conversion_eq_step]
  dsimp only [convertStep]
  rw [convertNamed, convertNamed, found]
  dsimp only
  rw [convertRecord, convertRecord, hunknown, hfields]

/-- **A field for which null stands admits null** if the record is taken: null satisfies no
other. -/
theorem admitsNull_of_taken_record {members : List (String × Json)} {v : Value} {field : Field}
    (found : table.find? name = some (.record r)) (hfield : field ∈ r.fields)
    (stands : (members.lookup field.name).or field.default = some .null)
    (h : (conversion table matching (.named name) (.object members)).run = some (.ok v)) :
    field.type.admitsNull = true := by
  cases conversion_eq_ok_iff.1 h with
  | @record _ r' _ fields found' _ hfields =>
      obtain rfl : r = r' := by simpa [found] using found'
      obtain ⟨entry, -, -, htaken⟩ := exists_right_of_forall₂ hfields hfield
      rw [Verdicts.TakesField, stands] at htaken
      exact (admitsNull_of_taken htaken).1

/-- **Absent is null.**  With either way of matching null is taken by the types that admit it,
as null, and all other types refuse it.  So it comes to the same whether the data of a record
gives null for a field or leaves the field out, if no field of the name has a default and all of
them admit null; and a record is not taken if null stands for a field whose type does not admit
it. -/
theorem absent_eq_null (table : Table) (matching : Matching) :
    (∀ ty : Descriptor, if ty.admitsNull then (conversion table matching ty .null).run =
      some (.ok .null)
      else ∃ e, (conversion table matching ty .null).run = some (.error e)) ∧
    ∀ name r, table.find? name = some (.record r) →
      (∀ key before after, (∃ field ∈ r.fields, field.name = key) →
        (∀ field ∈ r.fields, field.name = key → field.default = none ∧
          field.type.admitsNull = true) →
        key ∉ Entries.keys (before ++ after) →
        (conversion table matching (.named name)
          (.object (before ++ (key, .null) :: after))).run =
          (conversion table matching (.named name) (.object (before ++ after))).run) ∧
      ∀ members, ∀ field ∈ r.fields, field.type.admitsNull = false →
        (members.lookup field.name).or field.default = some .null →
        ∀ v, (conversion table matching (.named name) (.object members)).run ≠
          some (.ok v) := by
  refine ⟨conversion_null table matching,
    fun name r found => ⟨fun key before after declared nullable absent => ?_,
      fun members field hfield hrefuses stands v h => ?_⟩⟩
  · exact conversion_record_of_null_member found declared nullable absent
  · rw [admitsNull_of_taken_record found hfield stands h] at hrefuses
    contradiction

/-- A node without a next one may say so or not, and null is no weight. -/
theorem absent_eq_null_node :
    let kind : String × Json := ("kind", .string "EnumA")
    let weight : String × Json := ("weight", .number (.float (.ofInt 1)))
    (conversion Table.nodes .exact (.named "t.Node")
      (.object [kind, ("next", .null), weight])).run =
        (conversion Table.nodes .exact (.named "t.Node") (.object [kind, weight])).run ∧
      (conversion Table.nodes .exact (.named "t.Node") (.object [kind, weight])).run =
        some (.ok
          (.record "t.Node" [("kind", .enum "EnumA"), ("weight", .float (.ofInt 1)),
            ("next", .null)])) ∧
      ∀ v,
        (conversion Table.nodes .exact (.named "t.Node")
          (.object [kind, ("weight", .null)])).run ≠
        some (.ok v) := by
  intro kind weight
  obtain ⟨hgiven, hrefused⟩ := (absent_eq_null Table.nodes .exact).2 "t.Node" _ rfl
  refine ⟨hgiven "next" [kind] [weight] ⟨⟨"next", .optional (.named "t.Node"), none, none⟩,
    by simp, rfl⟩ (fun field hfield hname => ?_) (by decide), rfl, fun v => ?_⟩
  · simp only [List.mem_cons, List.not_mem_nil, or_false] at hfield
    rcases hfield with rfl | rfl | rfl
    · simp at hname
    · simp at hname
    · exact ⟨rfl, rfl⟩
  · exact hrefused _ ⟨"weight", .primitive .float, some (.number (.int 0)), none⟩
      (by simp) rfl rfl v

/-- A record with two fields of one name: a text that may be absent, and a number that is seven
by default. -/
def Table.twice : Table :=
  ⟨[("t.Twice", .record ⟨"t.Twice", [⟨"note", .optional (.primitive .string), none, none⟩,
    ⟨"note", .primitive .integer, some (.number (.int 7)), none⟩], none⟩)]⟩

/-- **Null in the place of an absent field can be refused.**  The first field of the name has no
default and admits null.  If its member is left out the record is taken, with the default of the
second; if null is given the second refuses it. -/
theorem conversion_twice :
    ∃ r, Table.twice.find? "t.Twice" = some (.record r) ∧
      (∃ field ∈ r.fields, field.name = "note" ∧ field.default = none ∧
        field.type.admitsNull = true) ∧
      (conversion Table.twice .coercing (.named "t.Twice") (.object [])).run =
        some (.ok (.record "t.Twice" [("note", .int 7)])) ∧
      (conversion Table.twice .coercing (.named "t.Twice") (.object [("note", .null)])).run =
        some (.error (.inField "t.Twice" "note" (.mismatch "int" .null))) :=
  ⟨_, rfl, ⟨_, List.mem_cons_self, rfl, rfl, rfl⟩, rfl, rfl⟩

end AvroBindings
