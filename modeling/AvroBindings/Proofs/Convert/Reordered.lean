import AvroBindings.Proofs.Convert.Alike
import AvroBindings.Proofs.Convert.Faults
import AvroBindings.Proofs.Convert.Typing
import AvroBindings.Proofs.Json.Reordered
import AvroBindings.Proofs.Json.Same
import AvroBindings.Proofs.Value.Same

/-!
# Conversion and the order of members

Conversion goes through the members of an object in the order of the data: the first member that
a record does not declare is reported, and a map stops at the first of its values that is
refused.  Which values are taken, and as what, does not depend on that order.

## Main Definitions

* `EndsSame` — where two conversions both end, they end with faults or with equal values.
* `Value.FieldsInOrder` — the records inside a value have their fields in the order of
  declaration.

## Main Statements

* `convertEntries_compatible`, `convertRecord_endsSame`, `convertUnion_compatible` — what maps,
  records and unions make of related parts.
* `convertWithin_endsSame` — conversions of reordered data end alike.
* `fieldsInOrder_of_conversion` — what conversion gives has its fields in order.
* `ofPlain?_reordered` — the order of members does not matter.

## Design Notes

**Where both end.**  A map that stops at a refused value does not come to the values behind it.
If one of these starts a default that never ends, another order of the members goes on for ever.
So the two conversions are compared only where both end.
-/

namespace AvroBindings

open Conversion

/-! ## Parts -/

section Parts

variable {table : Table} {part : PartConversion} {matching : Matching}
  {R : Value → Value → Prop}

theorem convertItems_compatible {item : Descriptor} {items others : List Json}
    (h : List.Forall₂ (fun x y => Compatible R (part matching item x) (part matching item y))
      items others) :
    Compatible (List.Forall₂ R) (convertItems part matching item items)
      (convertItems part matching item others) := by
  induction h with
  | nil => exact .return .nil
  | cons hx _ ih =>
      refine .bind hx fun v w hvw => ?_
      exact .bind ih fun vs ws hvws => .return (.cons hvw hvws)

/-- Values that were taken are related to the members they were taken from. -/
theorem convertEntries_related {value : Descriptor} {members : List (String × Json)}
    {entries : List (String × Value)} (hnodup : (Entries.keys members).Nodup)
    (h : (convertEntries part matching value members).run = some (.ok entries)) :
    Entries.Related (part.verdicts.takes matching value) members entries :=
  Entries.related_of_forall₂ hnodup (convertEntries_eq_ok_iff.1 h)

/-- A map is refused for the value of one of its members. -/
theorem exists_refused_of_convertEntries {value : Descriptor} {members : List (String × Json)}
    {e : ConversionError} (hnodup : (Entries.keys members).Nodup)
    (h : (convertEntries part matching value members).run = some (.error e)) :
    ∃ key x, members.lookup key = some x ∧ (part matching value x).run = some (.error e) := by
  have hfaults : FaultsOnly
      (fun e => ∃ member ∈ members, (part matching value member.2).run = some (.error e))
      (convertEntries part matching value members) :=
    convertEntries_faultsOnly fun member hmember e he => ⟨member, hmember, he⟩
  obtain ⟨⟨key, x⟩, hmember, hx⟩ := hfaults e h
  exact ⟨key, x, (Entries.lookup_eq_some_iff_mem hnodup).2 hmember, hx⟩

/-- **The entries of a map** come out related as maps, in whatever order the members are gone
through. -/
theorem convertEntries_compatible {value : Descriptor} {members others : List (String × Json)}
    (h :
      Entries.Related (fun x y => Compatible R (part matching value x) (part matching value y))
        members others) :
    Compatible (Entries.Related R) (convertEntries part matching value members)
      (convertEntries part matching value others) := by
  intro r r' hr hr'
  cases r with
  | error e =>
      cases r' with
      | error e' => exact .refused e e'
      | ok entries' =>
          obtain ⟨key, x, hx, hrefused⟩ := exists_refused_of_convertEntries h.nodup hr
          obtain ⟨y, hy, hxy⟩ := h.exists_right hx
          obtain ⟨w, -, hw⟩ := (convertEntries_related h.nodup' hr').exists_right hy
          cases hxy _ _ hrefused hw
  | ok entries =>
      cases r' with
      | error e' =>
          obtain ⟨key, y, hy, hrefused⟩ := exists_refused_of_convertEntries h.nodup' hr'
          obtain ⟨x, hx, hxy⟩ := h.exists_left hy
          obtain ⟨v, -, hv⟩ := (convertEntries_related h.nodup hr).exists_right hx
          cases hxy _ _ hv hrefused
      | ok entries' =>
          refine .taken (h.read (convertEntries_related h.nodup hr)
            (convertEntries_related h.nodup' hr') ?_)
          intro x y v w hxy hv hw
          cases hxy _ _ hv hw with
          | taken hvw => exact hvw

/-- The value of a field is read from related members, or from the one default. -/
theorem convertField_compatible {record : String} {members others : List (String × Json)}
    {field : Field} (hnull : R .null .null)
    (h :
      Entries.Related (fun x y => Compatible R (part matching field.type x)
        (part matching field.type y)) members others)
    (hdefault : ∀ default, field.default = some default →
      Compatible R (part matching field.type default) (part matching field.type default)) :
    Compatible R (convertField part matching record members field)
      (convertField part matching record others field) := by
  unfold convertField
  rcases h.lookup_cases field.name with ⟨hnone, hnone'⟩ | ⟨x, y, hx, hy, hxy⟩
  · rw [hnone, hnone', Option.none_or]
    cases hfield : field.default with
    | some default => exact (hdefault default hfield).adapt _ _
    | none =>
        cases field.type.admitsNull with
        | true => exact .return hnull
        | false => exact .refusal _ _
  · rw [hx, hy]
    exact hxy.adapt _ _

theorem convertFields_compatible {record : String} {members others : List (String × Json)}
    {fields : List Field}
    (h : ∀ field ∈ fields, Compatible R (convertField part matching record members field)
      (convertField part matching record others field)) :
    Compatible (List.Forall₂ fun entry other => entry.1 = other.1 ∧ R entry.2 other.2)
      (convertFields part matching record members fields)
      (convertFields part matching record others fields) := by
  induction fields with
  | nil => exact .return .nil
  | cons field rest ih =>
      refine .bind (h field List.mem_cons_self) fun v w hvw => ?_
      exact .bind (ih fun f hf => h f (List.mem_cons_of_mem _ hf)) fun vs ws hvws =>
        .return (.cons ⟨rfl, hvw⟩ hvws)

/-- Searches through the alternatives that go on where nothing is found end alike if what they
go on with does. -/
theorem search_compatible {f g : Descriptor → Conversion Value} {alternatives : List Descriptor}
    {next next' : Conversion Value} (h : ∀ ty ∈ alternatives, Compatible R (f ty) (g ty))
    (hnext : Compatible R next next') :
    Compatible R
      (match first? f alternatives with
        | none => unfinished
        | some (some v) => return v
        | some none => next)
      (match first? g alternatives with
        | none => unfinished
        | some (some v) => return v
        | some none => next') := by
  cases hf : first? f alternatives with
  | none => exact .unfinished
  | some found =>
      cases hg : first? g alternatives with
      | none => exact fun r r' _ hr' => by simp at hr'
      | some found' =>
          cases first?_compatible h hf hg with
          | some hvw => exact .return hvw
          | none => exact hnext

/-- **Unions choose the same** if each of their alternatives ends alike. -/
theorem convertUnion_compatible {alternatives : List Descriptor} {x y : Json}
    (h : ∀ matching, ∀ ty ∈ alternatives,
      Compatible R (part matching ty x) (part matching ty y)) :
    Compatible R (convertUnion table part matching alternatives x)
      (convertUnion table part matching alternatives y) := by
  refine search_compatible (fun ty hty => h .exact ty (table.mem_exactOrder.1 hty)) ?_
  cases matching with
  | exact => exact .refusal _ _
  | coercing => exact search_compatible (h .coercing) (.refusal _ _)

end Parts

/-! ## One step -/

/-- **Where both conversions end, they end with faults or with equal values.** -/
abbrev EndsSame (x y : Conversion Value) : Prop := Compatible (fun v w => v.same w = true) x y

/-- A value of a primitive kind equals itself: it is no float that is not a number. -/
theorem Primitive.same_of_ofPlain {kind : Primitive} {matching : Matching} {plain : Json}
    {v : Value} (hplain : plain.wellFormed = true) (h : kind.ofPlain matching plain = .ok v) :
    v.same v = true := by
  have typed : HasType ⟨[]⟩ (.primitive kind) v := Primitive.hasType_of_ofPlain hplain h
  cases typed with
  | float finite => exact Binary64.numEq_self (Binary64.isNaN_of_isFinite finite)
  | _ => simp [Value.same]

/-- A primitive kind takes data without members only. -/
theorem Primitive.ofPlain_reordered (kind : Primitive) (matching : Matching)
    {plain other : Json} (hplain : plain.wellFormed = true) (h : plain.Reordered other) :
    Alike (fun v w => v.same w = true) (kind.ofPlain matching plain)
      (kind.ofPlain matching other) := by
  cases h with
  | array => cases kind <;> exact .refused _ _
  | object => cases kind <;> exact .refused _ _
  | _ =>
      cases hv : kind.ofPlain matching _ with
      | error e => exact .refused e e
      | ok v => exact .taken (Primitive.same_of_ofPlain hplain hv)

/-- So does an enum. -/
theorem Enumeration.ofPlain_reordered (enum : Enumeration) (reference : String)
    {plain other : Json} (h : plain.Reordered other) :
    Alike (fun v w => v.same w = true) (enum.ofPlain reference plain)
      (enum.ofPlain reference other) := by
  cases h with
  | string s =>
      unfold Enumeration.ofPlain
      dsimp only
      split
      · exact .taken (by simp [Value.same])
      · exact .refused _ _
  | _ => exact .refused _ _

section Step

variable {table : Table} {part : PartConversion} {matching : Matching}

/-- **A record** ends alike on reordered members: the undeclared ones are found in another
order, the fields are read in the order of declaration. -/
theorem convertRecord_endsSame {r : Record} {members others : List (String × Json)}
    (h : Entries.Related (fun x y => ∀ ty, EndsSame (part matching ty x) (part matching ty y))
      members others)
    (hdefault : ∀ field ∈ r.fields, ∀ default, field.default = some default →
      EndsSame (part matching field.type default) (part matching field.type default)) :
    EndsSame (convertRecord part matching r members)
      (convertRecord part matching r others) := by
  have hkeys : ∀ members : List (String × Json),
      (members.find? fun member => (r.field? member.1).isNone) = none ↔
      ∀ key ∈ Entries.keys members, ∃ field ∈ r.fields, field.name = key :=
    fun members => by
      rw [Record.find?_undeclared_eq_none_iff, Entries.keys, List.forall_mem_map]
  have hdeclared : (members.find? fun member => (r.field? member.1).isNone) = none ↔
      (others.find? fun member => (r.field? member.1).isNone) = none := by
    rw [hkeys, hkeys]
    exact forall_congr' fun key => imp_congr_left (h.mem_keys_iff key)
  unfold convertRecord
  cases hfind : members.find? fun member => (r.field? member.1).isNone with
  | some undeclared =>
      cases hfind' : others.find? fun member => (r.field? member.1).isNone with
      | some undeclared' => exact .refusal _ _
      | none =>
          rw [hdeclared.2 hfind'] at hfind
          contradiction
  | none =>
      rw [hdeclared.1 hfind]
      have hfields : ∀ field ∈ r.fields,
          EndsSame (convertField part matching r.name members field)
          (convertField part matching r.name others field) := fun field hfield =>
        convertField_compatible rfl (h.mono fun x y hxy => hxy field.type)
          (hdefault field hfield)
      refine .bind (convertFields_compatible hfields) fun entries entries' hentries => ?_
      exact .return (Value.same_record (Entries.related_ofPairs hentries) r.name)

/-- **Where a step ends on data and on its reordering, it ends alike**, if the conversions of
parts do. -/
theorem convertStep_endsSame (hdefaults : table.wellFormed = true) (ty : Descriptor)
    {plain other : Json} (hplain : plain.wellFormed = true) (h : plain.Reordered other)
    (hpart : ∀ matching ty {x y : Json}, x.wellFormed = true → x.Reordered y →
      EndsSame (part matching ty x) (part matching ty y)) :
    EndsSame (convertStep table part matching ty plain)
      (convertStep table part matching ty other) := by
  cases ty with
  | primitive kind => exact .lift (kind.ofPlain_reordered matching hplain h)
  | optional inner =>
      by_cases present : plain = .null
      · obtain rfl := h.null_iff.1 present
        subst present
        exact .return rfl
      · rw [convertStep_optional present, convertStep_optional (h.null_iff.not.1 present)]
        exact hpart matching inner hplain h
  | union alternatives =>
      exact convertUnion_compatible fun matching ty _ => hpart matching ty hplain h
  | list item =>
      cases h with
      | @array items others length hpairs =>
          have hitems : List.Forall₂
              (fun x y => EndsSame (part matching item x) (part matching item y)) items
              others := by
            refine List.forall₂_iff_zip.2 ⟨length, fun {x y} hpair => ?_⟩
            have hx := Json.wellFormed_array_iff.1 hplain x (List.of_mem_zip hpair).1
            exact hpart matching item hx (hpairs (x, y) hpair)
          refine .bind (convertItems_compatible hitems) fun vs ws hvws => ?_
          exact .return (Value.sameItems_iff.2 hvws)
      | _ => exact .refusal _ _
  | map value =>
      cases h with
      | object order keys hpairs =>
          have hrelated := Json.Reordered.related hplain (.object order keys hpairs)
          have hentries := hrelated.mono fun x y hxy => hpart matching value hxy.1 hxy.2
          refine .bind (convertEntries_compatible hentries) fun entries entries' hentries => ?_
          exact .return (Value.same_map hentries)
      | _ => exact .refusal _ _
  | named name =>
      show EndsSame (convertNamed table part matching name plain)
        (convertNamed table part matching name other)
      unfold convertNamed
      cases hfind : table.find? name with
      | none => exact .refusal _ _
      | some type =>
          cases type with
          | enum e => exact .lift (e.ofPlain_reordered name h)
          | record r =>
              cases h with
              | object order keys hpairs =>
                  have hrelated := Json.Reordered.related hplain (.object order keys hpairs)
                  refine convertRecord_endsSame (hrelated.mono fun x y hxy ty =>
                    hpart matching ty hxy.1 hxy.2) ?_
                  intro field hfield default hdefault
                  have hempty : (Json.object []).wellFormed = true := rfl
                  have hwellFormed :=
                    Table.wellFormed_part hdefaults hfind hfield hempty hdefault
                  exact hpart matching field.type hwellFormed (.refl default)
              | _ => exact .refusal _ _

end Step

/-! ## Whole conversions -/

/-- **Conversions of reordered data end alike**, where both end. -/
theorem convertWithin_endsSame {table : Table} (hdefaults : table.wellFormed = true)
    (fuel : Nat) (matching : Matching) (ty : Descriptor) {plain other : Json}
    (hplain : plain.wellFormed = true) (h : plain.Reordered other) :
    EndsSame (convertWithin table fuel matching ty plain)
      (convertWithin table fuel matching ty other) := by
  induction fuel generalizing matching ty plain other with
  | zero => exact .unfinished
  | succ fuel ih => exact convertStep_endsSame hdefaults ty hplain h ih

/-! ## The order of fields -/

/-- **The records inside a value have their fields in the order of declaration**: each has the
name of a record of the table, and the names of its fields, of which a repeated one stands where
it is declared first. -/
inductive Value.FieldsInOrder (table : Table) : Value → Prop
  | null : FieldsInOrder table .null
  | boolean (b : Bool) : FieldsInOrder table (.boolean b)
  | int (n : Int) : FieldsInOrder table (.int n)
  | float (x : Binary64) : FieldsInOrder table (.float x)
  | string (s : String) : FieldsInOrder table (.string s)
  | enum (symbol : String) : FieldsInOrder table (.enum symbol)
  | list {vs : List Value} (h : ∀ v ∈ vs, FieldsInOrder table v) :
      FieldsInOrder table (.list vs)
  | map {entries : List (String × Value)} (h : ∀ entry ∈ entries, FieldsInOrder table entry.2) :
      FieldsInOrder table (.map entries)
  | record {name : String} {r : Record} {fields : List (String × Value)}
      (found : table.find? name = some (.record r))
      (order : Entries.keys fields = (r.fields.map Field.name).eraseDups)
      (h : ∀ entry ∈ fields, FieldsInOrder table entry.2) :
      FieldsInOrder table (.record r.name fields)

theorem Primitive.fieldsInOrder_of_ofPlain {table : Table} {kind : Primitive}
    {matching : Matching} {plain : Json} {v : Value} (h : kind.ofPlain matching plain = .ok v) :
    v.FieldsInOrder table := by
  unfold Primitive.ofPlain at h
  split at h <;> (try split at h) <;> cases h <;> constructor

/-- **What conversion gives has its fields in order**, in whatever order the data has them. -/
theorem fieldsInOrder_of_conversion {table : Table} {matching : Matching} {ty : Descriptor}
    {plain : Json} {v : Value} (h : (conversion table matching ty plain).run = some (.ok v)) :
    v.FieldsInOrder table := by
  refine conversion_induction (motive := fun _ _ _ v => v.FieldsInOrder table) ?_ h
  intro matching ty plain v step
  cases step with
  | primitive h => exact Primitive.fieldsInOrder_of_ofPlain h
  | absent => exact .null
  | present _ h => exact h.2
  | exactly _ _ h => exact h.2
  | coerced _ _ _ h => exact h.2
  | list h =>
      refine .list fun v hv => ?_
      obtain ⟨x, -, -, horder⟩ := exists_left_of_forall₂ h hv
      exact horder
  | map h =>
      refine .map fun entry hentry => ?_
      obtain ⟨member, -, -, -, horder⟩ := exists_left_of_forall₂ h hentry
      exact horder
  | enum _ _ => exact .enum _
  | record found _ h =>
      have hkeys := keys_eq_names_iff.2 (h.imp fun _ _ hentry => hentry.1)
      refine .record found (by rw [Entries.keys_ofPairs, hkeys]) fun entry hentry => ?_
      obtain ⟨field, -, -, htaken⟩ :=
        exists_left_of_forall₂ h (Entries.mem_of_mem_ofPairs hentry)
      unfold Verdicts.TakesField at htaken
      split at htaken
      · exact htaken.2
      · exact htaken.2 ▸ .null

/-- **The order of members does not matter.**  Of data and its reordering, both conversions end
with a fault, or both with equal values, whose fields are in the order of declaration. -/
theorem ofPlain?_reordered {table : Table} (hdefaults : table.wellFormed = true)
    {ty : Descriptor} {plain other : Json} (hplain : plain.wellFormed = true)
    (h : plain.Reordered other) {r r' : Except ConversionError Value}
    (hr : Value.ofPlain? table ty plain = some r)
    (hr' : Value.ofPlain? table ty other = some r') :
    (∃ e e', r = .error e ∧ r' = .error e') ∨
      ∃ v v', r = .ok v ∧ r' = .ok v' ∧ v.same v' = true ∧ v.FieldsInOrder table ∧
      v'.FieldsInOrder table := by
  rw [Value.ofPlain?_eq_conversion] at hr hr'
  -- The two run with the fuel of the one that is given more.
  have hwithin := convertWithin_mono (Nat.le_max_left _ (conversionFuel table ty other)) hr
  have hwithin' := convertWithin_mono (Nat.le_max_right (conversionFuel table ty plain) _) hr'
  cases convertWithin_endsSame hdefaults _ .coercing ty hplain h _ _ hwithin hwithin' with
  | refused e e' => exact .inl ⟨e, e', rfl, rfl⟩
  | taken hsame =>
      exact .inr ⟨_, _, rfl, rfl, hsame, fieldsInOrder_of_conversion hr,
        fieldsInOrder_of_conversion hr'⟩

/-- Two nodes under their names, a heavy one and one without a weight. -/
def Json.twoNodes : Json :=
  .object [("heavy", .object [("kind", .string "EnumA"), ("weight", .number (.int 2))]),
    ("light", .object [("kind", .string "other")])]

/-- The same two, and the members of the heavy one, the other way round. -/
def Json.twoNodesAround : Json :=
  .object [("light", .object [("kind", .string "other")]),
    ("heavy", .object [("weight", .number (.int 2)), ("kind", .string "EnumA")])]

/-- What the heavy node is read as, either way round. -/
def Value.heavyNode : Value :=
  .record "t.Node" [("kind", .enum "EnumA"), ("weight", .float (.ofInt 2)), ("next", .null)]

theorem reordered_twoNodes : Json.twoNodes.Reordered .twoNodesAround := by
  have hheavy :
      (Json.object [("kind", .string "EnumA"), ("weight", .number (.int 2))]).Reordered
      (.object [("weight", .number (.int 2)), ("kind", .string "EnumA")]) := by
    refine .object (.swap _ _ _) rfl fun pair hpair => ?_
    rcases List.mem_pair.1 hpair with rfl | rfl <;> exact .refl _
  refine .object (.swap _ _ _) rfl fun pair hpair => ?_
  rcases List.mem_pair.1 hpair with rfl | rfl
  · exact .refl _
  · exact hheavy

/-- The two nodes are read in the order of the data, their fields in the order of
declaration. -/
theorem ofPlain?_reordered_twoNodes :
    Table.nodes.wellFormed = true ∧ Json.twoNodes.wellFormed = true ∧
      Json.twoNodes.Reordered .twoNodesAround ∧
      ∃ v v', Value.ofPlain? .nodes (.map (.named "t.Node")) .twoNodes = some (.ok v) ∧
        Value.ofPlain? .nodes (.map (.named "t.Node")) .twoNodesAround = some (.ok v') ∧
        v.same v' = true ∧
        v.FieldsInOrder .nodes ∧ v'.FieldsInOrder .nodes := by
  have hdefaults : Table.nodes.wellFormed = true := by decide
  have hplain : Json.twoNodes.wellFormed = true := by decide
  have hread : Value.ofPlain? .nodes (.map (.named "t.Node")) .twoNodes =
      some (.ok (.map [("heavy", .heavyNode), ("light", .node (.string "other"))])) := rfl
  have hread' : Value.ofPlain? .nodes (.map (.named "t.Node")) .twoNodesAround =
      some (.ok (.map [("light", .node (.string "other")), ("heavy", .heavyNode)])) := rfl
  refine ⟨hdefaults, hplain, reordered_twoNodes, ?_⟩
  rcases ofPlain?_reordered hdefaults hplain reordered_twoNodes hread hread' with
    ⟨e, e', he, -⟩ | ⟨v, v', hv, hv', h⟩
  · cases he
  · exact ⟨v, v', hread.trans (congrArg some hv), hread'.trans (congrArg some hv'), h⟩

end AvroBindings
