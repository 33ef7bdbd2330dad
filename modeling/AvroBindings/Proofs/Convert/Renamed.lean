import Mathlib.Data.Set.Function
import AvroBindings.Proofs.Convert.Fuel
import AvroBindings.Proofs.NamedType.Renamed

/-!
# Conversion under other names

A table in which every name is replaced by another one converts data as the table does, if
different names stay different: it ends on the same data and takes the same data, and gives the
same values with the names of their records replaced.

## Main Definitions

* `Table.rename`, `Value.rename` — a table and a value with other names.
* `Conversion.Corresponds` — two conversions end alike, and one gives an image of what the other
  gives.
* `Table.NamedWithin` — a set has all names that are in a table.

## Main Statements

* `convertStep_corresponds` — one step, if the conversions of its parts correspond.
* `ofPlain?_corresponds` — a whole conversion.

## Design Notes

**Names that are not found.**  A reference may have a name that is no key.  It must not be
replaced by the new name of a key, or else it would be found.  So the names that have to stay
different are the keys and all that is referred to.

**Fuel.**  The fuel is computed from the data and from the shape of the types, which do not
change; so both conversions run with the same fuel, and the induction is on it.
-/

namespace AvroBindings

open Conversion

/-! ## Values -/

namespace Value

mutual

/-- A value with other names for its records. -/
def rename (f : String → String) : Value → Value
  | .null => .null
  | .boolean b => .boolean b
  | .int n => .int n
  | .float x => .float x
  | .string s => .string s
  | .enum s => .enum s
  | .list items => .list (renameItems f items)
  | .map entries => .map (renameEntries f entries)
  | .record name fields => .record (f name) (renameEntries f fields)

/-- The items with other names for their records. -/
def renameItems (f : String → String) : List Value → List Value
  | [] => []
  | v :: rest => v.rename f :: renameItems f rest

/-- The entries with other names for the records in their values. -/
def renameEntries (f : String → String) : List (String × Value) → List (String × Value)
  | [] => []
  | (k, v) :: rest => (k, v.rename f) :: renameEntries f rest

end

variable (f : String → String)

/-- The companion of `rename` on lists is a map. -/
theorem renameItems_eq_map (items : List Value) :
    renameItems f items = items.map (rename f) := by
  induction items with
  | nil => rfl
  | cons v rest ih => rw [renameItems, ih, List.map_cons]

/-- The companion of `rename` on entries is a map. -/
theorem renameEntries_eq_map (entries : List (String × Value)) :
    renameEntries f entries = entries.map fun entry => (entry.1, entry.2.rename f) := by
  induction entries with
  | nil => rfl
  | cons entry rest ih =>
      obtain ⟨k, v⟩ := entry
      rw [renameEntries, ih, List.map_cons]

end Value

/-! ## Tables -/

namespace Table

/-- A table with other names for its keys, for its types and for what they refer to. -/
def rename (f : String → String) (table : Table) : Table :=
  ⟨table.entries.map fun entry => (f entry.1, entry.2.rename f)⟩

variable (f : String → String) (table : Table)

theorem fields_rename : (table.rename f).fields = table.fields.map (Field.rename f) := by
  unfold fields rename
  rw [List.flatMap_map, List.map_flatMap]
  congr 1
  funext entry
  obtain ⟨key, type⟩ := entry
  cases type <;> rfl

theorem defaults_rename : (table.rename f).defaults = table.defaults := by
  unfold defaults
  rw [fields_rename, List.filterMap_map]
  rfl

/-- **A set has all names of a table**: its keys, and what the types of its fields refer to. -/
structure NamedWithin (table : Table) (names : Set String) : Prop where
  keys : ∀ key ∈ table.names, key ∈ names
  references : ∀ field ∈ table.fields, ∀ name ∈ field.type.references, name ∈ names

end Table

theorem Descriptor.heights_map_rename {f : String → String} {types : List Descriptor}
    (h : ∀ ty ∈ types, (ty.rename f).height = ty.height) :
    heights (types.map (rename f)) = heights types := by
  induction types with
  | nil => rfl
  | cons ty rest ih =>
      rw [List.forall_mem_cons] at h
      rw [List.map_cons, heights, heights, h.1, ih h.2]

theorem Descriptor.height_rename (f : String → String) (ty : Descriptor) :
    (ty.rename f).height = ty.height := by
  induction ty using Descriptor.induction with
  | primitive kind => rfl
  | optional inner ih => rw [rename, height, ih, height]
  | union alternatives ih => rw [rename_union, height, heights_map_rename ih, height]
  | list item ih => rw [rename, height, ih, height]
  | map value ih => rw [rename, height, ih, height]
  | named name => rfl

/-- Names do not count for the fuel. -/
theorem conversionFuel_rename (f : String → String) (table : Table) (ty : Descriptor)
    (plain : Json) :
    conversionFuel (table.rename f) (ty.rename f) plain = conversionFuel table ty plain := by
  have htypes : (table.fields.map (Field.rename f)).map Field.type =
      (table.fields.map Field.type).map (Descriptor.rename f) := by
    rw [List.map_map, List.map_map]
    rfl
  rw [conversionFuel, conversionFuel, Table.defaults_rename, Table.fields_rename, htypes,
    Descriptor.heights_map_rename fun ty _ => ty.height_rename f, Descriptor.height_rename]

/-! ## Corresponding conversions -/

namespace Conversion

variable {α β γ δ : Type}

/-- **Two conversions correspond**: neither ends, or both are refused, or both succeed and the
second gives the image of what the first gives. -/
inductive Corresponds (g : α → β) :
    Option (Except ConversionError α) → Option (Except ConversionError β) → Prop
  | unfinished : Corresponds g none none
  | refused (e e' : ConversionError) : Corresponds g (some (.error e)) (some (.error e'))
  | taken (a : α) : Corresponds g (some (.ok a)) (some (.ok (g a)))

namespace Corresponds

variable {g : α → β} {x : Option (Except ConversionError α)}
  {y : Option (Except ConversionError β)}

theorem eq_none_iff (h : Corresponds g x y) : y = none ↔ x = none := by
  cases h <;> simp

theorem eq_ok_iff (h : Corresponds g x y) {b : β} :
    y = some (.ok b) ↔ ∃ a, x = some (.ok a) ∧ b = g a := by
  cases h <;> simp [eq_comm]

theorem bind {x : Conversion α} {y : Conversion β} {f : α → Conversion γ} {k : β → Conversion δ}
    {g' : γ → δ} (hxy : Corresponds g x.run y.run)
    (hfk : ∀ a, Corresponds g' (f a).run (k (g a)).run) :
    Corresponds g' (x >>= f).run (y >>= k).run := by
  rw [ExceptT.run_bind, ExceptT.run_bind]
  cases hxy with
  | unfinished => exact .unfinished
  | refused e e' => exact .refused e e'
  | taken a => exact hfk a

theorem adapt {x : Conversion α} {y : Conversion β} (k k' : ConversionError → ConversionError)
    (h : Corresponds g x.run y.run) :
    Corresponds g (ExceptT.adapt k x).run (ExceptT.adapt k' y).run := by
  rw [run_adapt, run_adapt]
  cases h with
  | unfinished => exact .unfinished
  | refused e e' => exact .refused (k e) (k' e')
  | taken a => exact .taken a

/-- The first success on a list of images is the image of the first success on the list. -/
theorem first?_map {f : γ → Conversion α} {k : δ → Conversion β} {r : γ → δ} {l : List γ}
    (h : ∀ c ∈ l, Corresponds g (f c).run (k (r c)).run) :
    first? k (l.map r) = (first? f l).map (Option.map g) := by
  induction l with
  | nil => rfl
  | cons c rest ih =>
      rw [List.forall_mem_cons] at h
      have hfirst := h.1
      rw [List.map_cons, first?, first?]
      generalize (f c).run = x at hfirst
      generalize (k (r c)).run = y at hfirst
      cases hfirst with
      | unfinished => rfl
      | refused e e' => exact ih h.2
      | taken a => rfl

end Corresponds

end Conversion

/-! ## One step -/

/-- A value of a primitive kind has no records. -/
theorem Primitive.rename_of_ofPlain (f : String → String) {kind : Primitive}
    {matching : Matching} {plain : Json} {v : Value} (h : kind.ofPlain matching plain = .ok v) :
    v.rename f = v := by
  unfold Primitive.ofPlain at h
  split at h
  · obtain rfl := Except.ok.inj h
    rfl
  · obtain rfl := Except.ok.inj h
    rfl
  · split at h
    · obtain rfl := Except.ok.inj h
      rfl
    · contradiction
  · obtain rfl := Except.ok.inj h
    rfl
  · split at h
    · obtain rfl := Except.ok.inj h
      rfl
    · contradiction
  · obtain rfl := Except.ok.inj h
    rfl
  · contradiction

section Step

variable {f : String → String} {table : Table} {names : Set String}

theorem Primitive.ofPlain_corresponds (f : String → String) (kind : Primitive)
    (matching : Matching) (plain : Json) :
    Corresponds (Value.rename f) (some (kind.ofPlain matching plain))
      (some (kind.ofPlain matching plain)) := by
  cases h : kind.ofPlain matching plain with
  | error e => exact .refused e e
  | ok v =>
      have htaken := Corresponds.taken (g := Value.rename f) v
      rwa [Primitive.rename_of_ofPlain f h] at htaken

/-- An enum has the same symbols under any name. -/
theorem Enumeration.ofPlain_corresponds (f : String → String) (enum : Enumeration)
    (reference : String) (plain : Json) :
    Corresponds (Value.rename f) (some (enum.ofPlain reference plain))
      (some ((enum.rename f).ofPlain (f reference) plain)) := by
  cases plain with
  | string symbol =>
      show Corresponds _ (some (if enum.symbols.contains symbol then _ else _))
        (some (if enum.symbols.contains symbol then _ else _))
      split
      · exact .taken (Value.enum symbol)
      · exact .refused _ _
  | _ => exact .refused _ _

section Parts

variable {part part' : PartConversion} {matching : Matching}

theorem convertItems_corresponds {item item' : Descriptor} {items : List Json}
    (h : ∀ x ∈ items,
      Corresponds (Value.rename f) (part matching item x).run (part' matching item' x).run) :
    Corresponds (List.map (Value.rename f)) (convertItems part matching item items).run
      (convertItems part' matching item' items).run := by
  induction items with
  | nil => exact .taken []
  | cons x rest ih =>
      rw [List.forall_mem_cons] at h
      exact .bind h.1 fun v => .bind (ih h.2) fun vs => .taken (v :: vs)

theorem convertEntries_corresponds {value value' : Descriptor} {members : List (String × Json)}
    (h : ∀ member ∈ members, Corresponds (Value.rename f) (part matching value member.2).run
      (part' matching value' member.2).run) :
    Corresponds (List.map fun entry => (entry.1, entry.2.rename f))
      (convertEntries part matching value members).run
      (convertEntries part' matching value' members).run := by
  induction members with
  | nil => exact .taken []
  | cons member rest ih =>
      rw [List.forall_mem_cons] at h
      exact .bind h.1 fun v => .bind (ih h.2) fun vs => .taken ((member.1, v) :: vs)

theorem convertField_corresponds {record record' : String} {members : List (String × Json)}
    {field : Field}
    (h : ∀ plain, Corresponds (Value.rename f) (part matching field.type plain).run
      (part' matching (field.type.rename f) plain).run) :
    Corresponds (Value.rename f) (convertField part matching record members field).run
      (convertField part' matching record' members (field.rename f)).run := by
  rw [convertField, convertField, Field.rename]
  cases (members.lookup field.name).or field.default with
  | some plain => exact (h plain).adapt _ _
  | none =>
      dsimp only
      rw [Descriptor.admitsNull_rename]
      split
      · exact .taken Value.null
      · exact .refused _ _

theorem convertFields_corresponds {record record' : String} {members : List (String × Json)}
    {fields : List Field}
    (h : ∀ field ∈ fields, ∀ plain, Corresponds (Value.rename f)
      (part matching field.type plain).run (part' matching (field.type.rename f) plain).run) :
    Corresponds (List.map fun entry => (entry.1, entry.2.rename f))
      (convertFields part matching record members fields).run
      (convertFields part' matching record' members (fields.map (Field.rename f))).run := by
  induction fields with
  | nil => exact .taken []
  | cons field rest ih =>
      rw [List.forall_mem_cons] at h
      exact .bind (convertField_corresponds h.1) fun v => .bind (ih h.2) fun vs =>
        .taken ((field.name, v) :: vs)

theorem convertRecord_corresponds {record : Record} {members : List (String × Json)}
    (h : ∀ field ∈ record.fields, ∀ plain, Corresponds (Value.rename f)
      (part matching field.type plain).run (part' matching (field.type.rename f) plain).run) :
    Corresponds (Value.rename f) (convertRecord part matching record members).run
      (convertRecord part' matching (record.rename f) members).run := by
  have hunknown : (fun member : String × Json => ((record.rename f).field? member.1).isNone) =
      fun member => (record.field? member.1).isNone := by
    funext member
    rw [Record.field?_rename, Option.isNone_map]
  rw [convertRecord, convertRecord, hunknown]
  cases members.find? fun member => (record.field? member.1).isNone with
  | some unknown => exact .refused _ _
  | none =>
      refine .bind (convertFields_corresponds h) fun fields => ?_
      have htaken :=
        Corresponds.taken (g := Value.rename f) (.record record.name (Entries.ofPairs fields))
      rwa [Value.rename, Value.renameEntries_eq_map, ← Entries.ofPairs_map] at htaken

end Parts

variable (hinjective : Set.InjOn f names) (htable : table.NamedWithin names)

include hinjective htable

/-- A name finds under its new name what it found. -/
theorem Table.find?_rename {name : String} (hname : name ∈ names) :
    (table.rename f).find? (f name) = (table.find? name).map (NamedType.rename f) :=
  Entries.lookup_map _ fun key hkey heq => hinjective (htable.keys key hkey) hname heq

/-- A type refers to an enum exactly if it does under its new name. -/
theorem Table.refersToEnum_rename {ty : Descriptor}
    (hty : ∀ name ∈ ty.references, name ∈ names) :
    (table.rename f).refersToEnum (ty.rename f) = table.refersToEnum ty := by
  cases ty with
  | named name =>
      have hfind := Table.find?_rename hinjective htable (hty name (List.mem_singleton_self _))
      show (((table.rename f).find? (f name)).bind NamedType.enum?).isSome =
        ((table.find? name).bind NamedType.enum?).isSome
      rw [hfind]
      cases table.find? name with
      | none => rfl
      | some type => cases type <;> rfl
  | _ => rfl

/-- The order of the exact attempt does not change. -/
theorem Table.exactOrder_rename {alternatives : List Descriptor}
    (halternatives : ∀ ty ∈ alternatives, ∀ name ∈ ty.references, name ∈ names) :
    (table.rename f).exactOrder (alternatives.map (Descriptor.rename f)) =
      (table.exactOrder alternatives).map (Descriptor.rename f) := by
  rw [exactOrder, exactOrder, List.map_append, List.filter_map, List.filter_map]
  congr 2
  · exact List.filter_congr fun ty hty =>
      refersToEnum_rename hinjective htable (halternatives ty hty)
  · refine List.filter_congr fun ty hty => ?_
    show (!(table.rename f).refersToEnum (ty.rename f)) = !table.refersToEnum ty
    rw [refersToEnum_rename hinjective htable (halternatives ty hty)]

variable {part part' : PartConversion}
  (hpart : ∀ matching ty plain, (∀ name ∈ ty.references, name ∈ names) →
    Corresponds (Value.rename f) (part matching ty plain).run
      (part' matching (ty.rename f) plain).run)

include hpart

theorem convertUnion_corresponds {matching : Matching} {alternatives : List Descriptor}
    {plain : Json} (halternatives : ∀ ty ∈ alternatives, ∀ name ∈ ty.references, name ∈ names) :
    Corresponds (Value.rename f) (convertUnion table part matching alternatives plain).run
      (convertUnion (table.rename f) part' matching (alternatives.map (Descriptor.rename f))
        plain).run := by
  -- Both attempts go through the alternatives in the same order, so both find the same one
  -- first.
  have hexact : first? (fun ty => part' .exact ty plain)
      ((table.exactOrder alternatives).map (Descriptor.rename f)) =
      (first? (fun ty => part .exact ty plain) (table.exactOrder alternatives)).map
        (Option.map (Value.rename f)) :=
    Corresponds.first?_map fun ty hty =>
      hpart .exact ty plain (halternatives ty (table.mem_exactOrder.1 hty))
  have hcoercing :
      first? (fun ty => part' .coercing ty plain) (alternatives.map (Descriptor.rename f)) =
      (first? (fun ty => part .coercing ty plain) alternatives).map
        (Option.map (Value.rename f)) :=
    Corresponds.first?_map fun ty hty => hpart .coercing ty plain (halternatives ty hty)
  rw [convertUnion, convertUnion, Table.exactOrder_rename hinjective htable halternatives,
    hexact, hcoercing]
  cases first? (fun ty => part .exact ty plain) (table.exactOrder alternatives) with
  | none => exact .unfinished
  | some found =>
      cases found with
      | some v => exact .taken v
      | none =>
          cases matching with
          | exact => exact .refused _ _
          | coercing =>
              cases first? (fun ty => part .coercing ty plain) alternatives with
              | none => exact .unfinished
              | some found =>
                  cases found with
                  | some v => exact .taken v
                  | none => exact .refused _ _

/-- **One step under other names** gives what it gives with the names of the records replaced,
if the conversions of the parts do. -/
theorem convertStep_corresponds (matching : Matching) {ty : Descriptor} (plain : Json)
    (hty : ∀ name ∈ ty.references, name ∈ names) :
    Corresponds (Value.rename f) (convertStep table part matching ty plain).run
      (convertStep (table.rename f) part' matching (ty.rename f) plain).run := by
  cases ty with
  | primitive kind => exact kind.ofPlain_corresponds f matching plain
  | optional inner =>
      cases plain with
      | null => exact .taken Value.null
      | _ => exact hpart matching inner _ hty
  | union alternatives =>
      rw [Descriptor.rename_union]
      exact convertUnion_corresponds hinjective htable hpart fun ty hmem name hname =>
        hty name (Descriptor.mem_referencesOfAll.2 ⟨ty, hmem, hname⟩)
  | list item =>
      cases plain with
      | array items =>
          refine .bind (convertItems_corresponds fun x _ => hpart matching item x hty)
            fun vs => ?_
          have htaken := Corresponds.taken (g := Value.rename f) (.list vs)
          rwa [Value.rename, Value.renameItems_eq_map] at htaken
      | _ => exact .refused _ _
  | map value =>
      cases plain with
      | object members =>
          refine .bind (convertEntries_corresponds fun member _ =>
            hpart matching value member.2 hty) fun vs => ?_
          have htaken := Corresponds.taken (g := Value.rename f) (.map vs)
          rwa [Value.rename, Value.renameEntries_eq_map] at htaken
      | _ => exact .refused _ _
  | named name =>
      have hfind := Table.find?_rename hinjective htable (hty name (List.mem_singleton_self _))
      show Corresponds _ (convertNamed table part matching name plain).run
        (convertNamed (table.rename f) part' matching (f name) plain).run
      rw [convertNamed, convertNamed, hfind]
      cases hfound : table.find? name with
      | none => exact .refused _ _
      | some type =>
          cases type with
          | enum enum => exact enum.ofPlain_corresponds f name plain
          | record record =>
              cases plain with
              | object members =>
                  exact convertRecord_corresponds fun field hfield plain =>
                    hpart matching field.type plain
                      (htable.references field (Table.mem_fields hfound hfield))
              | _ => exact .refused _ _

end Step

/-! ## Whole conversions -/

section Run

variable {f : String → String} {table : Table} {names : Set String}
  (hinjective : Set.InjOn f names) (htable : table.NamedWithin names)

include hinjective htable

theorem convertWithin_corresponds (fuel : Nat) (matching : Matching) (ty : Descriptor)
    (plain : Json) (hty : ∀ name ∈ ty.references, name ∈ names) :
    Corresponds (Value.rename f) (convertWithin table fuel matching ty plain).run
      (convertWithin (table.rename f) fuel matching (ty.rename f) plain).run := by
  induction fuel generalizing matching ty plain with
  | zero => exact .unfinished
  | succ fuel ih => exact convertStep_corresponds hinjective htable ih matching plain hty

/-- **A conversion under other names** ends on the same data and takes the same data, and gives
the same value with the names of the records replaced, if different names stay different. -/
theorem ofPlain?_corresponds (ty : Descriptor) (plain : Json)
    (hty : ∀ name ∈ ty.references, name ∈ names) :
    Corresponds (Value.rename f) (Value.ofPlain? table ty plain)
      (Value.ofPlain? (table.rename f) (ty.rename f) plain) := by
  rw [Value.ofPlain?, Value.ofPlain?, conversionFuel_rename]
  exact convertWithin_corresponds hinjective htable _ .coercing ty plain hty

end Run

end AvroBindings
