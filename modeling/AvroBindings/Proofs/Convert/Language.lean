import Mathlib.Algebra.Group.Int.Defs
import AvroBindings.Proofs.Convert.Faults
import AvroBindings.Proofs.Convert.Typing

/-!
# The data that conversion accepts

Which plain data has a value at a type, said without a way of matching, without passes through
unions and without an order of alternatives.

## Main Definitions

* `Accepts` — the language of a type: the least relation that holds of the data part by part.
* `Conversion.NeverFaults` — a conversion gives a value if it ends.

## Main Statements

* `accepts_of_conversion` — what is taken, with either way of matching, is in the language.
* `conversion_neverFaults` — data of the language is not refused.
* `ofPlain?_accepts_iff` — where all conversions end, exactly the data of the language is taken.

## Design Notes

**One language for two passes.**  The exact pass takes less than the language says, and what it
refuses it refuses for good only inside another exact attempt.  The coercing pass comes after
it, so a union that is read by coercion takes whatever one of its alternatives takes by
coercion.  Hence the language is about coercion alone, and an exact attempt only ever decides
which value is given.

**Two halves.**  That data is not refused can be said of each conversion on its own and needs
nothing to end.  Only to go from there to a value it takes that the conversion ends.
-/

namespace AvroBindings

open Conversion

/-! ## The language of a type -/

/-- **Plain data is in the language of a type.**  A field of a record stands for its member,
without one for its default, and without either for null. -/
inductive Accepts (table : Table) : Descriptor → Json → Prop
  | null : Accepts table (.primitive .null) .null
  | boolean (b : Bool) : Accepts table (.primitive .boolean) (.bool b)
  | integer {n : Int} (low : -2 ^ 63 ≤ n) (high : n < 2 ^ 63) :
      Accepts table (.primitive .integer) (.number (.int n))
  | float (n : JsonNumber) : Accepts table (.primitive .float) (.number n)
  | string (s : String) : Accepts table (.primitive .string) (.string s)
  | absent (inner : Descriptor) : Accepts table (.optional inner) .null
  | present {inner : Descriptor} {plain : Json} (h : Accepts table inner plain) :
      Accepts table (.optional inner) plain
  | union {alternatives : List Descriptor} {ty : Descriptor} {plain : Json}
      (member : ty ∈ alternatives) (h : Accepts table ty plain) :
      Accepts table (.union alternatives) plain
  | list {item : Descriptor} {items : List Json} (h : ∀ x ∈ items, Accepts table item x) :
      Accepts table (.list item) (.array items)
  | map {value : Descriptor} {members : List (String × Json)}
      (h : ∀ member ∈ members, Accepts table value member.2) :
      Accepts table (.map value) (.object members)
  | enum {name symbol : String} {e : Enumeration} (found : table.find? name = some (.enum e))
      (declared : symbol ∈ e.symbols) : Accepts table (.named name) (.string symbol)
  | record {name : String} {r : Record} {members : List (String × Json)}
      (found : table.find? name = some (.record r))
      (declared : ∀ member ∈ members, ∃ field ∈ r.fields, field.name = member.1)
      (given : ∀ field ∈ r.fields, ∀ plain, members.lookup field.name = some plain →
        Accepts table field.type plain)
      (filled : ∀ field ∈ r.fields, ∀ default, members.lookup field.name = none →
        field.default = some default → Accepts table field.type default)
      (left : ∀ field ∈ r.fields, members.lookup field.name = none → field.default = none →
        field.type.admitsNull = true) :
      Accepts table (.named name) (.object members)

/-- An integer fits a word exactly if it is in the signed range of sixty-four bits. -/
theorem fitsWord_iff {n : Int} : fitsWord n = true ↔ -2 ^ 63 ≤ n ∧ n < 2 ^ 63 := by
  simp [fitsWord]

/-- A union accepts what one of its alternatives accepts. -/
theorem accepts_union_iff {table : Table} {alternatives : List Descriptor} {plain : Json} :
    Accepts table (.union alternatives) plain ↔
      ∃ ty ∈ alternatives, Accepts table ty plain := by
  constructor
  · rintro ⟨⟩
    exact ⟨_, by assumption, by assumption⟩
  · rintro ⟨ty, member, h⟩
    exact .union member h

/-! ## What is taken is in the language -/

theorem Primitive.accepts_of_ofPlain {table : Table} {kind : Primitive} {matching : Matching}
    {plain : Json} {v : Value} (h : kind.ofPlain matching plain = .ok v) :
    Accepts table (.primitive kind) plain := by
  unfold Primitive.ofPlain at h
  split at h
  · exact .null
  · exact .boolean _
  · split at h
    next hfits =>
      obtain ⟨low, high⟩ := fitsWord_iff.1 hfits
      exact .integer low high
    next => contradiction
  · exact .float _
  · exact .float _
  · exact .string _
  · contradiction

/-- **What is taken is in the language**, with either way of matching. -/
theorem accepts_of_conversion {table : Table} {matching : Matching} {ty : Descriptor}
    {plain : Json} {v : Value} (h : (conversion table matching ty plain).run = some (.ok v)) :
    Accepts table ty plain := by
  refine conversion_induction (motive := fun _ ty plain _ => Accepts table ty plain) ?_ h
  intro matching ty plain v step
  cases step with
  | primitive h => exact Primitive.accepts_of_ofPlain h
  | absent => exact .absent _
  | present _ h => exact .present h.2
  | exactly order _ h =>
      exact .union (table.mem_exactOrder.1 (order ▸ List.mem_append_right _ List.mem_cons_self))
        h.2
  | coerced _ _ _ h => exact .union (List.mem_append_right _ List.mem_cons_self) h.2
  | list h =>
      refine .list fun x hx => ?_
      obtain ⟨v, -, -, haccepts⟩ := exists_right_of_forall₂ h hx
      exact haccepts
  | map h =>
      refine .map fun member hmember => ?_
      obtain ⟨entry, -, -, -, haccepts⟩ := exists_right_of_forall₂ h hmember
      exact haccepts
  | enum found h => exact .enum found h
  | record found declared h =>
      refine .record found declared (fun field hfield plain hlookup => ?_)
        (fun field hfield default hlookup hdefault => ?_)
        fun field hfield hlookup hdefault => ?_
      · obtain ⟨entry, -, -, htaken⟩ := exists_right_of_forall₂ h hfield
        rw [Verdicts.TakesField, hlookup, Option.some_or] at htaken
        exact htaken.2
      · obtain ⟨entry, -, -, htaken⟩ := exists_right_of_forall₂ h hfield
        rw [Verdicts.TakesField, hlookup, hdefault, Option.none_or] at htaken
        exact htaken.2
      · obtain ⟨entry, -, -, htaken⟩ := exists_right_of_forall₂ h hfield
        rw [Verdicts.TakesField, hlookup, hdefault, Option.none_or] at htaken
        exact htaken.1

/-! ## Data of the language is not refused -/

namespace Conversion

variable {α : Type}

/-- If the conversion ends, it ends with a value. -/
def NeverFaults (x : Conversion α) : Prop := ∀ e, x.run ≠ some (.error e)

/-- To never fault is to end only with faults of which there are none. -/
theorem neverFaults_iff {x : Conversion α} : NeverFaults x ↔ FaultsOnly (fun _ => False) x :=
  Iff.rfl

/-- A conversion that ends and never faults gives a value. -/
theorem NeverFaults.exists_value {x : Conversion α} (hx : NeverFaults x) (hends : Finishes x) :
    ∃ a, x.run = some (.ok a) := by
  obtain ⟨r, hr⟩ := hends
  cases r with
  | error e => exact absurd hr (hx e)
  | ok a => exact ⟨a, hr⟩

end Conversion

/-- A union does not refuse what one of its alternatives does not, with the same way of
matching. -/
theorem convertUnion_neverFaults {table : Table} {part : PartConversion} {matching : Matching}
    {alternatives : List Descriptor} {ty : Descriptor} {plain : Json}
    (member : ty ∈ alternatives) (h : NeverFaults (part matching ty plain)) :
    NeverFaults (convertUnion table part matching alternatives plain) := by
  intro e hfault
  obtain ⟨-, hrefused, -⟩ := convertUnion_eq_error_iff.1 hfault
  obtain ⟨e', he'⟩ := hrefused ty member
  exact h e' he'

theorem neverFaults_of_step {table : Table} {matching : Matching} {ty : Descriptor}
    {plain : Json}
    (h : FaultsOnly (fun _ => False) (convertStep table (conversion table) matching ty plain)) :
    NeverFaults (conversion table matching ty plain) := by
  intro e
  rw [conversion_eq_step]
  exact neverFaults_iff.2 h e

/-! ### Types whose parts do not refuse their data -/

section Parts

variable {table : Table} {matching : Matching}

/-- An optional does not refuse what its inner type does not. -/
theorem neverFaults_optional {inner : Descriptor} {plain : Json}
    (h : NeverFaults (conversion table matching inner plain)) :
    NeverFaults (conversion table matching (.optional inner) plain) := by
  by_cases hnull : plain = .null
  · subst hnull
    exact neverFaults_of_step (.return _)
  · refine neverFaults_of_step ?_
    rw [convertStep_optional hnull]
    exact neverFaults_iff.1 h

theorem neverFaults_list {item : Descriptor} {items : List Json}
    (h : ∀ x ∈ items, NeverFaults (conversion table matching item x)) :
    NeverFaults (conversion table matching (.list item) (.array items)) := by
  refine neverFaults_of_step (.bind (convertItems_faultsOnly fun x hx => ?_) fun vs =>
    .return _)
  exact neverFaults_iff.1 (h x hx)

theorem neverFaults_map {value : Descriptor} {members : List (String × Json)}
    (h : ∀ member ∈ members, NeverFaults (conversion table matching value member.2)) :
    NeverFaults (conversion table matching (.map value) (.object members)) := by
  refine neverFaults_of_step
    (.bind (convertEntries_faultsOnly fun member hmember => ?_) fun vs => .return _)
  exact neverFaults_iff.1 (h member hmember)

theorem neverFaults_enum {name symbol : String} {e : Enumeration}
    (found : table.find? name = some (.enum e)) (declared : symbol ∈ e.symbols) :
    NeverFaults (conversion table matching (.named name) (.string symbol)) := by
  refine neverFaults_of_step fun error => ?_
  simp [convertStep, convertNamed, found, Enumeration.ofPlain, declared]

/-- A record does not refuse an object if none of its fields refuses the data that it stands
for. -/
theorem neverFaults_record {name : String} {r : Record} {members : List (String × Json)}
    (found : table.find? name = some (.record r))
    (declared : ∀ member ∈ members, ∃ field ∈ r.fields, field.name = member.1)
    (given : ∀ field ∈ r.fields, ∀ plain, members.lookup field.name = some plain →
      NeverFaults (conversion table matching field.type plain))
    (filled : ∀ field ∈ r.fields, ∀ default, members.lookup field.name = none → field.default =
      some default → NeverFaults (conversion table matching field.type default))
    (left : ∀ field ∈ r.fields, members.lookup field.name = none → field.default = none →
      field.type.admitsNull = true) :
    NeverFaults (conversion table matching (.named name) (.object members)) := by
  have hfields : ∀ field ∈ r.fields,
      FaultsOnly (fun _ => False)
        (convertField (conversion table) matching r.name members field) := by
    intro field hfield
    unfold convertField
    cases hlookup : members.lookup field.name with
    | some plain =>
        exact .adapt (fun _ h => h) (neverFaults_iff.1 (given field hfield plain hlookup))
    | none =>
        cases hdefault : field.default with
        | some default =>
            exact .adapt (fun _ h => h)
              (neverFaults_iff.1 (filled field hfield default hlookup hdefault))
        | none =>
            rw [Option.or_none, if_pos (left field hfield hlookup hdefault)]
            exact .return _
  refine neverFaults_of_step ?_
  change FaultsOnly _ (convertNamed table (conversion table) matching name (.object members))
  rw [convertNamed, found]
  change FaultsOnly _ (convertRecord (conversion table) matching r members)
  rw [convertRecord, Record.find?_undeclared_eq_none_iff.2 declared]
  exact .bind (convertFields_faultsOnly hfields) fun fields => .return _

end Parts

/-- **Data of the language is not refused.** -/
theorem conversion_neverFaults {table : Table} {ty : Descriptor} {plain : Json}
    (h : Accepts table ty plain) :
    NeverFaults (conversion table .coercing ty plain) := by
  -- On the language, not on the conversion: the exact pass of a union may end in any way, and
  -- nothing is assumed of it.
  induction h with
  | null => exact neverFaults_of_step (.return _)
  | boolean b => exact neverFaults_of_step (.return _)
  | integer low high =>
      refine neverFaults_of_step fun e => ?_
      simp [convertStep, Primitive.ofPlain, fitsWord_iff.2 ⟨low, high⟩]
  | float n =>
      refine neverFaults_of_step ?_
      cases n <;> exact .return _
  | string s => exact neverFaults_of_step (.return _)
  | absent inner => exact neverFaults_of_step (.return _)
  | present _ ih => exact neverFaults_optional ih
  | union member _ ih =>
      exact neverFaults_of_step (neverFaults_iff.1 (convertUnion_neverFaults member ih))
  | list _ ih => exact neverFaults_list ih
  | map _ ih => exact neverFaults_map ih
  | enum found declared => exact neverFaults_enum found declared
  | record found declared _ _ left given filled =>
      exact neverFaults_record found declared given filled left

/-! ## The converter and the language -/

/-- A conversion that ends gives a value exactly for data of the language. -/
theorem conversion_succeeds_iff {table : Table} {ty : Descriptor} {plain : Json}
    (hends : Finishes (conversion table .coercing ty plain)) :
    (∃ v, (conversion table .coercing ty plain).run = some (.ok v)) ↔
      Accepts table ty plain := by
  constructor
  · rintro ⟨v, h⟩
    exact accepts_of_conversion h
  · exact fun h => (conversion_neverFaults h).exists_value hends

/-- **Conversion accepts exactly the language of a type**, if all conversions with the table
end.  So a union takes what one of its alternatives takes when it stands alone, whichever pass
that is found in, and the order of the alternatives does not matter to whether the data is
taken. -/
theorem ofPlain?_accepts_iff {table : Table} (terminates : table.Terminates) (plain : Json) :
    (∀ ty, (∃ v, Value.ofPlain? table ty plain = some (.ok v)) ↔ Accepts table ty plain) ∧
    (∀ alternatives, (∃ v, Value.ofPlain? table (.union alternatives) plain = some (.ok v)) ↔
      ∃ ty ∈ alternatives, ∃ v, Value.ofPlain? table ty plain = some (.ok v)) ∧
    (∀ alternatives alternatives' : List Descriptor, alternatives.Perm alternatives' →
      ((∃ v, Value.ofPlain? table (.union alternatives) plain = some (.ok v)) ↔
        ∃ v, Value.ofPlain? table (.union alternatives') plain = some (.ok v))) := by
  have haccepts : ∀ ty, (∃ v, Value.ofPlain? table ty plain = some (.ok v)) ↔
      Accepts table ty plain :=
    fun ty => conversion_succeeds_iff (terminates ty plain)
  refine ⟨haccepts, fun alternatives => ?_, fun alternatives alternatives' hperm => ?_⟩
  · simp only [haccepts, accepts_union_iff]
  · simp only [haccepts, accepts_union_iff, hperm.mem_iff]

/-- The only default of `Table.nodes` is converted or refused. -/
theorem terminates_nodes : Table.nodes.Terminates := by
  refine Table.terminates_of_starts fun start hstart => ?_
  obtain rfl | rfl : start = ⟨.exact, .primitive .float, .number (.int 0)⟩ ∨
      start = ⟨.coercing, .primitive .float, .number (.int 0)⟩ := by
    have hstarts : Table.nodes.starts =
        [⟨.exact, .primitive .float, .number (.int 0)⟩,
          ⟨.coercing, .primitive .float, .number (.int 0)⟩] := rfl
    simpa [hstarts] using hstart
  · exact ⟨_, rfl⟩
  · exact ⟨_, rfl⟩

/-- A node inside a node.  The kind of the inner one is an integer, which only the coercing pass
takes; the weights and the second next node are left out. -/
theorem ofPlain?_accepts_iff_node :
    Table.nodes.Terminates ∧
      Accepts Table.nodes (.named "t.Node")
        (.object [("next", .object [("kind", .number (.int 3))]),
          ("kind", .string "EnumA")]) := by
  refine ⟨terminates_nodes, ((ofPlain?_accepts_iff terminates_nodes _).1 _).1 ⟨_, rfl⟩⟩

end AvroBindings
