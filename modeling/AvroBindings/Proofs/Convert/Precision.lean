import AvroBindings.Proofs.Convert.Language
import AvroBindings.Proofs.Convert.Shape

/-!
# What unions keep as it is

An integer is a value of `float` as well, and a symbol a value of `string`.  A union that has a
type of their own for them does not choose the wider one: where one of its alternatives takes
the data as it is, nothing in the data is widened.

## Main Definitions

* `AcceptsExactly` — the language of a type whose floats are numbers written as floats.
* `Unwidened` — a value keeps the data it was read from: no integer in the data, or in a default
  that stands in for a part of it, has become a float.

## Main Statements

* `acceptsExactly_of_conversion`, `conversion_exact_succeeds_iff` — matching exactly decides the
  exact language, and keeps the data.
* `ofPlain?_union_unwidened` — a union keeps what one of its alternatives takes exactly; in
  particular integers and symbols.

## Design Notes

**Defaults are matched like data.**  A record takes an object exactly only if the defaults of
the fields that are left out are taken exactly as well.  So the language looks into defaults,
and what it is about is the table and not the data alone.
-/

namespace AvroBindings

open Conversion

/-! ## The exact language of a type -/

/-- **Plain data is in the exact language of a type.**  It is the language of the type with
`float` for the numbers written as floats only, in the data and in the defaults that stand for
fields. -/
inductive AcceptsExactly (table : Table) : Descriptor → Json → Prop
  | null : AcceptsExactly table (.primitive .null) .null
  | boolean (b : Bool) : AcceptsExactly table (.primitive .boolean) (.bool b)
  | integer {n : Int} (low : -2 ^ 63 ≤ n) (high : n < 2 ^ 63) :
      AcceptsExactly table (.primitive .integer) (.number (.int n))
  | float (x : Binary64) : AcceptsExactly table (.primitive .float) (.number (.float x))
  | string (s : String) : AcceptsExactly table (.primitive .string) (.string s)
  | absent (inner : Descriptor) : AcceptsExactly table (.optional inner) .null
  | present {inner : Descriptor} {plain : Json} (h : AcceptsExactly table inner plain) :
      AcceptsExactly table (.optional inner) plain
  | union {alternatives : List Descriptor} {ty : Descriptor} {plain : Json}
      (member : ty ∈ alternatives) (h : AcceptsExactly table ty plain) :
      AcceptsExactly table (.union alternatives) plain
  | list {item : Descriptor} {items : List Json}
      (h : ∀ x ∈ items, AcceptsExactly table item x) :
      AcceptsExactly table (.list item) (.array items)
  | map {value : Descriptor} {members : List (String × Json)}
      (h : ∀ member ∈ members, AcceptsExactly table value member.2) :
      AcceptsExactly table (.map value) (.object members)
  | enum {name symbol : String} {e : Enumeration} (found : table.find? name = some (.enum e))
      (declared : symbol ∈ e.symbols) : AcceptsExactly table (.named name) (.string symbol)
  | record {name : String} {r : Record} {members : List (String × Json)}
      (found : table.find? name = some (.record r))
      (declared : ∀ member ∈ members, ∃ field ∈ r.fields, field.name = member.1)
      (given : ∀ field ∈ r.fields, ∀ plain, members.lookup field.name = some plain →
        AcceptsExactly table field.type plain)
      (filled : ∀ field ∈ r.fields, ∀ default, members.lookup field.name = none →
        field.default = some default → AcceptsExactly table field.type default)
      (left : ∀ field ∈ r.fields, members.lookup field.name = none → field.default = none →
        field.type.admitsNull = true) :
      AcceptsExactly table (.named name) (.object members)

/-- **An integer is taken exactly** where an integer type is reached through optionals and
unions. -/
theorem acceptsExactly_int {table : Table} {ty : Descriptor} {n : Int} (low : -2 ^ 63 ≤ n)
    (high : n < 2 ^ 63) (h : Shape.integer ∈ table.shapes ty) :
    AcceptsExactly table ty (.number (.int n)) := by
  induction ty using Descriptor.induction with
  | primitive kind =>
      cases kind with
      | integer => exact .integer low high
      | _ => simp [Table.shapes, Primitive.shape] at h
  | optional inner ih =>
      rw [Table.shapes, List.mem_cons] at h
      exact .present (ih (h.resolve_left (by simp)))
  | union alternatives ih =>
      obtain ⟨ty, hty, hshape⟩ := Table.mem_shapesOfAny.1 h
      exact .union hty (ih ty hty hshape)
  | list item => simp [Table.shapes] at h
  | map value => simp [Table.shapes] at h
  | named name =>
      rw [Table.shapes] at h
      split at h <;> simp at h

/-! ## Values that keep their data -/

/-- **A value keeps the data it was read from.**  Integers stay integers and floats stay floats,
item by item and member by member.  A field of a record keeps the member of its name, without
one the default, and without either it is null. -/
inductive Unwidened (table : Table) : Json → Value → Prop
  | null : Unwidened table .null .null
  | boolean (b : Bool) : Unwidened table (.bool b) (.boolean b)
  | int (n : Int) : Unwidened table (.number (.int n)) (.int n)
  | float (x : Binary64) : Unwidened table (.number (.float x)) (.float x)
  | string (s : String) : Unwidened table (.string s) (.string s)
  | symbol (s : String) : Unwidened table (.string s) (.enum s)
  | list {items : List Json} {vs : List Value} (length : items.length = vs.length)
      (h : ∀ pair ∈ items.zip vs, Unwidened table pair.1 pair.2) :
      Unwidened table (.array items) (.list vs)
  | map {members : List (String × Json)} {entries : List (String × Value)}
      (length : members.length = entries.length)
      (keys : ∀ pair ∈ members.zip entries, pair.1.1 = pair.2.1)
      (h : ∀ pair ∈ members.zip entries, Unwidened table pair.1.2 pair.2.2) :
      Unwidened table (.object members) (.map entries)
  | record {name : String} {r : Record} {members : List (String × Json)}
      {fields : List (String × Value)} (found : table.find? name = some (.record r))
      (names : Entries.keys fields = r.fields.map Field.name)
      (kept : ∀ pair ∈ r.fields.zip fields, ∀ plain,
        (members.lookup pair.1.name).or pair.1.default = some plain →
        Unwidened table plain pair.2.2)
      (left : ∀ pair ∈ r.fields.zip fields,
        (members.lookup pair.1.name).or pair.1.default = none → pair.2.2 = .null) :
      Unwidened table (.object members) (.record r.name (Entries.ofPairs fields))

/-- What keeps an integer is that integer. -/
theorem Unwidened.eq_int {table : Table} {n : Int} {v : Value}
    (h : Unwidened table (.number (.int n)) v) :
    v = .int n := by
  cases h
  rfl

/-! ## Matching exactly -/

theorem Primitive.exactly_of_ofPlain {table : Table} {kind : Primitive} {plain : Json}
    {v : Value} (h : kind.ofPlain .exact plain = .ok v) :
    AcceptsExactly table (.primitive kind) plain ∧ Unwidened table plain v := by
  unfold Primitive.ofPlain at h
  split at h
  · obtain rfl := Except.ok.inj h
    exact ⟨.null, .null⟩
  · obtain rfl := Except.ok.inj h
    exact ⟨.boolean _, .boolean _⟩
  · split at h
    next hfits =>
      obtain ⟨low, high⟩ := fitsWord_iff.1 hfits
      obtain rfl := Except.ok.inj h
      exact ⟨.integer low high, .int _⟩
    next => contradiction
  · obtain rfl := Except.ok.inj h
    exact ⟨.float _, .float _⟩
  · contradiction
  · obtain rfl := Except.ok.inj h
    exact ⟨.string _, .string _⟩
  · contradiction

/-- **What is taken exactly is in the exact language, and is kept.** -/
theorem acceptsExactly_of_conversion {table : Table} {ty : Descriptor} {plain : Json}
    {v : Value} (h : (conversion table .exact ty plain).run = some (.ok v)) :
    AcceptsExactly table ty plain ∧ Unwidened table plain v := by
  suffices hmotive : ∀ matching, (conversion table matching ty plain).run = some (.ok v) →
      matching = .exact →
      AcceptsExactly table ty plain ∧ Unwidened table plain v by
    exact hmotive .exact h rfl
  intro matching h
  refine conversion_induction (motive := fun matching ty plain v => matching = .exact →
    AcceptsExactly table ty plain ∧ Unwidened table plain v) ?_ h
  rintro matching ty plain v step rfl
  cases step with
  | primitive h => exact Primitive.exactly_of_ofPlain h
  | absent => exact ⟨.absent _, .null⟩
  | present _ h => exact ⟨.present (h.2 rfl).1, (h.2 rfl).2⟩
  | exactly order _ h =>
      have hmem := table.mem_exactOrder.1 (order ▸ List.mem_append_right _ List.mem_cons_self)
      exact ⟨.union hmem (h.2 rfl).1, (h.2 rfl).2⟩
  | coerced coercing => contradiction
  | list h =>
      refine ⟨.list fun x hx => ?_, .list h.length_eq fun pair hpair => ?_⟩
      · obtain ⟨v, -, -, hexact⟩ := exists_right_of_forall₂ h hx
        exact (hexact rfl).1
      · exact ((List.forall₂_zip h hpair).2 rfl).2
  | map h =>
      refine ⟨.map fun member hmember => ?_,
        .map h.length_eq (fun pair hpair => ?_) fun pair hpair => ?_⟩
      · obtain ⟨entry, -, -, -, hexact⟩ := exists_right_of_forall₂ h hmember
        exact (hexact rfl).1
      · exact (List.forall₂_zip h hpair).1
      · exact ((List.forall₂_zip h hpair).2.2 rfl).2
  | enum found h => exact ⟨.enum found h, .symbol _⟩
  | @record name r members fields found declared h =>
      -- What stands for a field, its member or its default, is taken exactly; so the two need
      -- not be told apart here.
      have hpart : List.Forall₂
          (fun field entry => ∀ part, (members.lookup field.name).or field.default = some part →
            AcceptsExactly table field.type part ∧ Unwidened table part entry.2)
          r.fields fields := by
        refine h.imp fun field entry hentry part hpart => ?_
        have htaken := hentry.2
        rw [Verdicts.TakesField, hpart] at htaken
        exact htaken.2 rfl
      have hnull :
          List.Forall₂ (fun field entry => (members.lookup field.name).or field.default = none →
          field.type.admitsNull = true ∧ entry.2 = .null) r.fields fields := by
        refine h.imp fun field entry hentry hnone => ?_
        have htaken := hentry.2
        rwa [Verdicts.TakesField, hnone] at htaken
      refine ⟨.record found declared (fun field hfield part hlookup => ?_)
        (fun field hfield default hlookup hdefault => ?_) fun field hfield hlookup hdefault =>
          ?_, .record found (keys_eq_names_iff.2 (h.imp fun _ _ hentry => hentry.1))
            (fun pair hpair part hstands => ?_) fun pair hpair hnone => ?_⟩
      · obtain ⟨entry, -, hexact⟩ := exists_right_of_forall₂ hpart hfield
        exact (hexact part (by rw [hlookup, Option.some_or])).1
      · obtain ⟨entry, -, hexact⟩ := exists_right_of_forall₂ hpart hfield
        exact (hexact default (by rw [hlookup, hdefault, Option.none_or])).1
      · obtain ⟨entry, -, hadmits⟩ := exists_right_of_forall₂ hnull hfield
        exact (hadmits (by rw [hlookup, hdefault, Option.none_or])).1
      · exact (List.forall₂_zip hpart hpair part hstands).2
      · exact (List.forall₂_zip hnull hpair hnone).2

/-- **Data of the exact language is not refused by an exact attempt.** -/
theorem conversion_exact_neverFaults {table : Table} {ty : Descriptor} {plain : Json}
    (h : AcceptsExactly table ty plain) : NeverFaults (conversion table .exact ty plain) := by
  induction h with
  | null => exact neverFaults_of_step (.return _)
  | boolean b => exact neverFaults_of_step (.return _)
  | integer low high =>
      refine neverFaults_of_step fun e => ?_
      simp [convertStep, Primitive.ofPlain, fitsWord_iff.2 ⟨low, high⟩]
  | float x => exact neverFaults_of_step (.return _)
  | string s => exact neverFaults_of_step (.return _)
  | absent inner => exact neverFaults_of_step (.return _)
  | present _ ih => exact neverFaults_optional ih
  | union member _ ih =>
      exact neverFaults_of_step (neverFaults_iff.1 (convertUnion_neverFaults member ih))
  | list _ ih => exact neverFaults_list ih
  | map _ ih => exact neverFaults_map ih
  | enum found declared => exact neverFaults_enum found declared
  | record found declared _ _ left given filled =>
      exact neverFaults_record found declared given filled left

/-- An exact attempt that ends gives a value exactly for data of the exact language. -/
theorem conversion_exact_succeeds_iff {table : Table} {ty : Descriptor} {plain : Json}
    (hends : Finishes (conversion table .exact ty plain)) :
    (∃ v, (conversion table .exact ty plain).run = some (.ok v)) ↔
      AcceptsExactly table ty plain := by
  constructor
  · rintro ⟨v, h⟩
    exact (acceptsExactly_of_conversion h).1
  · exact fun h => (conversion_exact_neverFaults h).exists_value hends

/-! ## Unions -/

/-- **A union that ends gives what one of its alternatives takes exactly.** -/
theorem exists_exact_of_union {table : Table} {matching : Matching}
    {alternatives : List Descriptor} {ty : Descriptor} {plain : Json}
    (hends : Finishes (conversion table matching (.union alternatives) plain))
    (member : ty ∈ alternatives) (h : AcceptsExactly table ty plain) :
    ∃ other ∈ alternatives, ∃ v, (conversion table .exact other plain).run = some (.ok v) ∧
      (conversion table matching (.union alternatives) plain).run = some (.ok v) := by
  obtain ⟨r, hr⟩ := hends
  rw [conversion_eq_step, convertStep, convertUnion] at hr
  cases hfirst : first? (fun ty => conversion table .exact ty plain)
    (table.exactOrder alternatives) with
  | none => simp [hfirst] at hr
  | some found =>
      cases found with
      | none =>
          obtain ⟨e, he⟩ := first?_eq_error_iff.1 hfirst ty (table.mem_exactOrder.2 member)
          exact absurd he (conversion_exact_neverFaults h e)
      | some v =>
          obtain ⟨before, other, after, order, refused, taken⟩ := first?_eq_ok_iff.1 hfirst
          have hmem : other ∈ table.exactOrder alternatives :=
            order ▸ List.mem_append_right _ List.mem_cons_self
          exact ⟨other, table.mem_exactOrder.1 hmem, v, taken,
            conversion_eq_ok_iff.2 (.exactly order refused taken)⟩

/-- **A union keeps what one of its alternatives takes exactly.**  If all conversions with the
table end and an alternative takes the data exactly, the union takes it, and no integer in the
data or in a default that is used becomes a float.  So an integer of sixty-four bits stays an
integer if an integer type is reached through optionals and unions, and a symbol of an enum that
is an alternative becomes that symbol, wherever `float` or `string` stand. -/
theorem ofPlain?_union_unwidened {table : Table} (terminates : table.Terminates)
    (alternatives : List Descriptor) :
    (∀ plain, (∃ ty ∈ alternatives, AcceptsExactly table ty plain) →
      ∃ v, Value.ofPlain? table (.union alternatives) plain = some (.ok v) ∧
        Unwidened table plain v) ∧
    (∀ n : Int, -2 ^ 63 ≤ n → n < 2 ^ 63 →
      (∃ ty ∈ alternatives, Shape.integer ∈ table.shapes ty) →
      Value.ofPlain? table (.union alternatives) (.number (.int n)) = some (.ok (.int n))) ∧
    ∀ name e s, .named name ∈ alternatives → table.find? name = some (.enum e) → s ∈ e.symbols →
      Value.ofPlain? table (.union alternatives) (.string s) = some (.ok (.enum s)) := by
  have hkept : ∀ plain, (∃ ty ∈ alternatives, AcceptsExactly table ty plain) →
      ∃ v, Value.ofPlain? table (.union alternatives) plain = some (.ok v) ∧
        Unwidened table plain v := by
    rintro plain ⟨ty, member, hexact⟩
    obtain ⟨_, -, v, taken, hunion⟩ := exists_exact_of_union (terminates _ plain) member hexact
    exact ⟨v, hunion, (acceptsExactly_of_conversion taken).2⟩
  refine ⟨hkept, fun n low high ⟨ty, member, hshape⟩ => ?_,
    fun name e s member found declared => ?_⟩
  · obtain ⟨v, hv, hunwidened⟩ := hkept _ ⟨ty, member, acceptsExactly_int low high hshape⟩
    rwa [hunwidened.eq_int] at hv
  · exact conversion_union_symbol .coercing member found declared

/-- A list of weights, or a list of numbers and symbols. -/
def Descriptor.readings : List Descriptor :=
  [.list (.primitive .float),
    .list (.union [.primitive .float, .optional (.primitive .integer), .primitive .string,
    .named "t.Choice"])]

/-- A list with an integer in it is not one of weights; the integer is kept, and so is the
symbol. -/
theorem ofPlain?_union_unwidened_readings :
    Table.nodes.Terminates ∧
      (∃ ty ∈ Descriptor.readings,
        AcceptsExactly Table.nodes ty (.array [.number (.int 3), .string "EnumB"])) ∧
      Value.ofPlain? Table.nodes (.union Descriptor.readings)
        (.array [.number (.int 3), .string "EnumB"]) =
        some (.ok (.list [.int 3, .enum "EnumB"])) ∧
      Unwidened Table.nodes (.array [.number (.int 3), .string "EnumB"])
        (.list [.int 3, .enum "EnumB"]) := by
  have hexact : ∃ ty ∈ Descriptor.readings,
      AcceptsExactly Table.nodes ty (.array [.number (.int 3), .string "EnumB"]) := by
    refine ⟨_, List.mem_cons_of_mem _ List.mem_cons_self, .list fun x hx => ?_⟩
    rcases List.mem_pair.1 hx with rfl | rfl
    · exact .union (List.mem_cons_of_mem _ List.mem_cons_self)
        (.present (.integer (by decide) (by decide)))
    · exact .union (List.mem_cons_of_mem _ (List.mem_cons_of_mem _ List.mem_cons_self))
        (.string _)
  have hread : Value.ofPlain? Table.nodes (.union Descriptor.readings)
      (.array [.number (.int 3), .string "EnumB"]) =
      some (.ok (.list [.int 3, .enum "EnumB"])) := rfl
  obtain ⟨v, hv, hunwidened⟩ :=
    (ofPlain?_union_unwidened terminates_nodes Descriptor.readings).1 _ hexact
  obtain rfl : v = .list [.int 3, .enum "EnumB"] :=
    Except.ok.inj (Option.some.inj (hv.symm.trans hread))
  exact ⟨terminates_nodes, hexact, hread, hunwidened⟩

end AvroBindings
