import AvroBindings.Proofs.Convert.Ends
import AvroBindings.Proofs.Convert.ReadBack

/-!
# Filled data

The plain form of a converted value is not the data that was converted: absent nullable fields
have become null and integers may have become floats.  Where no default takes part, this is all
that has happened, and the data so filled is taken exactly only by types that take the data
itself.

## Main Definitions

* `Table.DefaultFree`, `Table.UnionsDefaultFree` — no record that is reached from a type, or
  from an alternative of a union that is, declares a default.
* `Filled` — data in which nulls have been filled in and, if numbers are coerced, integers
  widened.

## Main Statements

* `conversion_finishes` — conversion ends where no default is reached.
* `filled_of_conversion` — the plain form of the value is the data, filled.
* `taken_of_filled` — filling makes no type take more data exactly than it takes unfilled.

## Design Notes

**Two ways of matching, one relation.**  A union is read in an exact and in a coercing pass, and
a widened integer is taken exactly where the integer is only taken by coercion.  `Filled`
therefore carries the way of matching in which the data was read: `taken_of_filled` goes from
the exact reading of the filled data back to a reading of the data in that way, which is the
pass in which an earlier alternative would have been found.
-/

namespace AvroBindings

open Conversion

/-! ## Types without defaults -/

/-- No record that is reached from the type declares a default for a field. -/
def Table.DefaultFree (table : Table) (ty : Descriptor) : Prop :=
  ∀ name r, table.Reaches ty (.named name) → table.find? name = some (.record r) →
    ∀ field ∈ r.fields, field.default = none

namespace Table.DefaultFree

variable {table : Table}

/-- What is reached from a type without defaults is without defaults. -/
theorem mono {ty other : Descriptor} (free : table.DefaultFree ty)
    (h : ∀ target, table.Reaches other target → table.Reaches ty target) :
    table.DefaultFree other :=
  fun name r hreach => free name r (h (.named name) hreach)

theorem inner {inner : Descriptor} (free : table.DefaultFree (.optional inner)) :
    table.DefaultFree inner :=
  free.mono fun _ => .optional

theorem alternative {alternatives : List Descriptor} {ty : Descriptor}
    (free : table.DefaultFree (.union alternatives)) (member : ty ∈ alternatives) :
    table.DefaultFree ty :=
  free.mono fun _ => .union member

theorem item {item : Descriptor} (free : table.DefaultFree (.list item)) :
    table.DefaultFree item :=
  free.mono fun _ => .list

theorem value {value : Descriptor} (free : table.DefaultFree (.map value)) :
    table.DefaultFree value :=
  free.mono fun _ => .map

variable {name : String} {r : Record}

theorem field {field : Field} (free : table.DefaultFree (.named name))
    (found : table.find? name = some (.record r)) (member : field ∈ r.fields) :
    table.DefaultFree field.type :=
  free.mono fun _ => .field found member

theorem default_eq_none {field : Field} (free : table.DefaultFree (.named name))
    (found : table.find? name = some (.record r)) (member : field ∈ r.fields) :
    field.default = none :=
  free name r (.refl _) found field member

end Table.DefaultFree

/-- No alternative of a union that is reached from the type reaches a default. -/
def Table.UnionsDefaultFree (table : Table) (ty : Descriptor) : Prop :=
  ∀ alternatives, table.Reaches ty (.union alternatives) → ∀ alternative ∈ alternatives,
    table.DefaultFree alternative

theorem Table.UnionsDefaultFree.mono {table : Table} {ty other : Descriptor}
    (free : table.UnionsDefaultFree ty)
    (h : ∀ target, table.Reaches other target → table.Reaches ty target) :
    table.UnionsDefaultFree other :=
  fun alternatives hreach => free alternatives (h _ hreach)

/-- **Conversion ends where no default is reached.** -/
theorem conversion_finishes {table : Table} {ty : Descriptor} (free : table.DefaultFree ty)
    (matching : Matching) (plain : Json) : Finishes (conversion table matching ty plain) := by
  refine conversion_finishes_of_defaults
    (fun name r field default hreach found hfield hdefault => ?_) matching plain
  rw [free name r hreach found field hfield] at hdefault
  contradiction

/-- Where no default is reached, data is taken or refused. -/
theorem taken_or_refused {table : Table} {ty : Descriptor} (free : table.DefaultFree ty)
    (matching : Matching) (plain : Json) :
    (∃ v, (conversion table matching ty plain).run = some (.ok v)) ∨
    Refused table matching ty plain := by
  obtain ⟨r, hr⟩ := conversion_finishes free matching plain
  cases r with
  | ok v => exact .inl ⟨v, hr⟩
  | error e => exact .inr ⟨e, hr⟩

/-! ## Filling -/

/-- **Data is filled.**  Members that were absent are null, and where numbers are coerced
integers may have become floats; nothing else differs. -/
inductive Filled (matching : Matching) : Json → Json → Prop
  | scalar {plain : Json} (flat : plain.depth = 0) : Filled matching plain plain
  | widened (coercing : matching = .coercing) (n : Int) :
      Filled matching (.number (.int n)) (.number (.float (.ofInt n)))
  | array {items items' : List Json} (h : List.Forall₂ (Filled matching) items items') :
      Filled matching (.array items) (.array items')
  | object {members members' : List (String × Json)}
      (kept : ∀ key ∈ Entries.keys members, key ∈ Entries.keys members')
      (filled : ∀ key plain', members'.lookup key = some plain' → members.lookup key = none →
        plain' = .null)
      (h : ∀ key plain plain', members.lookup key = some plain →
        members'.lookup key = some plain' → Filled matching plain plain') :
      Filled matching (.object members) (.object members')

theorem Filled.eq_null {matching : Matching} {plain : Json} (h : Filled matching plain .null) :
    plain = .null := by
  cases h
  rfl

theorem Filled.of_null {matching : Matching} {plain : Json} (h : Filled matching .null plain) :
    plain = .null := by
  cases h
  rfl

/-- Entries fill an object if each of them fills the member of its key, or is null without
one. -/
theorem Filled.of_entries {matching : Matching} {members : List (String × Json)}
    {entries : List (String × Value)}
    (kept : ∀ key ∈ Entries.keys members, key ∈ Entries.keys entries)
    (h : ∀ entry ∈ entries, match members.lookup entry.1 with
      | some plain => Filled matching plain entry.2.toPlain
      | none => entry.2 = .null) :
    Filled matching (.object members) (.object (Value.entriesToPlain entries)) := by
  have hentry : ∀ key plain', (Value.entriesToPlain entries).lookup key = some plain' →
      ∃ v, (key, v) ∈ entries ∧ plain' = v.toPlain := by
    intro key plain' hlookup
    have hmem := Entries.mem_of_lookup hlookup
    rw [Value.entriesToPlain_eq_map] at hmem
    obtain ⟨⟨key', v⟩, hentry, heq⟩ := List.mem_map.1 hmem
    obtain ⟨rfl, rfl⟩ := Prod.mk.inj heq
    exact ⟨v, hentry, rfl⟩
  refine .object (fun key hkey => ?_) (fun key plain' hlookup' hlookup => ?_)
    fun key plain plain' hlookup hlookup' => ?_
  · rw [Value.keys_entriesToPlain]
    exact kept key hkey
  · obtain ⟨v, hmem, rfl⟩ := hentry key plain' hlookup'
    have hnull := h (key, v) hmem
    rw [hlookup] at hnull
    exact congrArg Value.toPlain hnull
  · obtain ⟨v, hmem, rfl⟩ := hentry key plain' hlookup'
    have hfilled := h (key, v) hmem
    rw [hlookup] at hfilled
    exact hfilled

/-! ### The plain form of a value is filled data -/

theorem Primitive.filled_of_ofPlain {kind : Primitive} {matching matching' : Matching}
    {plain : Json} {v : Value} (weaker : matching = .coercing → matching' = .coercing)
    (hplain : plain.wellFormed = true) (h : kind.ofPlain matching plain = .ok v) :
    Filled matching' plain v.toPlain := by
  unfold Primitive.ofPlain at h
  split at h
  · obtain rfl := Except.ok.inj h
    exact .scalar rfl
  · obtain rfl := Except.ok.inj h
    exact .scalar rfl
  · split at h
    next =>
      obtain rfl := Except.ok.inj h
      exact .scalar rfl
    next => contradiction
  · next x =>
    obtain rfl := Except.ok.inj h
    have hfinite : x.isFinite = true := hplain
    rw [Value.toPlain, Value.plainFloat, if_pos hfinite]
    exact .scalar rfl
  · next n =>
    split at h
    next hcoercing =>
      obtain rfl := Except.ok.inj h
      rw [Value.toPlain, Value.plainFloat, if_pos (Json.isFinite_ofInt_of_wellFormed hplain)]
      exact .widened (weaker hcoercing) n
    next => contradiction
  · obtain rfl := Except.ok.inj h
    exact .scalar rfl
  · contradiction

/-- **The plain form of the value is the data, filled**, where no default is reached. -/
theorem filled_of_conversion {table : Table} (distinct : table.distinctFields = true)
    {matching matching' : Matching} {ty : Descriptor} {plain : Json} {v : Value}
    (free : table.DefaultFree ty) (hplain : plain.wellFormed = true)
    (weaker : matching = .coercing → matching' = .coercing)
    (h : (conversion table matching ty plain).run = some (.ok v)) :
    Filled matching' plain v.toPlain := by
  revert free hplain weaker
  refine conversion_induction (motive := fun matching ty plain v => table.DefaultFree ty →
    plain.wellFormed = true → (matching = .coercing → matching' = .coercing) →
    Filled matching' plain v.toPlain) ?_ h
  intro matching ty plain v step free hplain weaker
  cases step with
  | primitive h => exact Primitive.filled_of_ofPlain weaker hplain h
  | absent => exact .scalar rfl
  | present _ h => exact h.2 free.inner hplain weaker
  | exactly order _ h =>
      have hmem := table.mem_exactOrder.1 (order ▸ List.mem_append_right _ List.mem_cons_self)
      exact h.2 (free.alternative hmem) hplain (by simp)
  | coerced coercing _ _ h =>
      exact h.2 (free.alternative (List.mem_append_right _ List.mem_cons_self)) hplain fun _ =>
        weaker coercing
  | list h =>
      rw [Json.wellFormed_array_iff] at hplain
      rw [Value.toPlain, Value.itemsToPlain_eq_map]
      refine .array (List.forall₂_map_right_iff.2
        (List.forall₂_iff_zip.2 ⟨h.length_eq, fun {x v} hpair => ?_⟩))
      exact (List.forall₂_zip h hpair).2 free.item (hplain x (List.of_mem_zip hpair).1) weaker
  | @map value members entries h =>
      obtain ⟨hnodup, hmembers⟩ := Json.wellFormed_object_iff.1 hplain
      refine .of_entries (fun key hkey => ?_) fun entry hentry => ?_
      · have hkeys : Entries.keys members = Entries.keys entries :=
          Entries.keys_eq_iff.2 (h.imp fun _ _ hentry => hentry.1)
        exact hkeys ▸ hkey
      · obtain ⟨⟨key, x⟩, hmember, rfl, -, hfilled⟩ := exists_left_of_forall₂ h hentry
        rw [(Entries.lookup_eq_some_iff_mem hnodup).2 hmember]
        exact hfilled free.value (hmembers _ hmember) weaker
  | enum _ _ => exact .scalar rfl
  | @record name r members fields found declared h =>
      have hkeys := keys_eq_names_iff.2 (h.imp fun _ _ hentry => hentry.1)
      have hnodup := Table.nodup_of_find? distinct found
      rw [Entries.ofPairs_of_nodup (hkeys ▸ hnodup)]
      refine .of_entries (fun key hkey => ?_) fun entry hentry => ?_
      · obtain ⟨x, hmember⟩ := Entries.mem_keys.1 hkey
        rw [hkeys]
        exact List.mem_map.2 (declared (key, x) hmember)
      · obtain ⟨field, hfield, hname, htaken⟩ := exists_left_of_forall₂ h hentry
        -- Without defaults the value of a field is that of its member, or null.
        rw [Verdicts.TakesField, free.default_eq_none found hfield, Option.or_none, ← hname]
          at htaken
        cases hlookup : members.lookup entry.1 with
        | some x =>
            rw [hlookup] at htaken
            exact htaken.2 (free.field found hfield)
              (Json.wellFormed_of_lookup hplain hlookup) weaker
        | none =>
            rw [hlookup] at htaken
            exact htaken.2

/-! ### Filled data is taken only where the data is -/

theorem Primitive.ofPlain_of_filled {kind : Primitive} {matching : Matching}
    {plain plain' : Json} {v' : Value} (filled : Filled matching plain plain')
    (h : kind.ofPlain .exact plain' = .ok v') :
    ∃ v, kind.ofPlain matching plain = .ok v := by
  cases filled with
  | scalar flat =>
      cases matching with
      | exact => exact ⟨v', h⟩
      | coercing =>
          unfold Primitive.ofPlain at h ⊢
          split at h
          case h_5 => simp at h
          all_goals exact ⟨v', h⟩
  | widened coercing n =>
      subst coercing
      cases kind with
      | float => exact ⟨.float (.ofInt n), rfl⟩
      | _ => simp [Primitive.ofPlain] at h
  | array _ => cases kind <;> simp [Primitive.ofPlain] at h
  | object _ _ _ => cases kind <;> simp [Primitive.ofPlain] at h

/-- If each thing on a list is related to something, the list is related to a list. -/
theorem exists_forall₂ {α β : Type} {R : α → β → Prop} {l : List α} (h : ∀ a ∈ l, ∃ b, R a b) :
    ∃ l', List.Forall₂ R l l' := by
  induction l with
  | nil => exact ⟨[], .nil⟩
  | cons a rest ih =>
      obtain ⟨b, hb⟩ := h a List.mem_cons_self
      obtain ⟨bs, hbs⟩ := ih fun x hx => h x (List.mem_cons_of_mem _ hx)
      exact ⟨b :: bs, .cons hb hbs⟩

section Parts

variable {table : Table} {matching : Matching}

/-- A list is taken if its items are. -/
theorem exists_taken_list {item : Descriptor} {items : List Json}
    (h : ∀ x ∈ items, ∃ v, (conversion table matching item x).run = some (.ok v)) :
    ∃ v, (conversion table matching (.list item) (.array items)).run = some (.ok v) := by
  obtain ⟨vs, hvs⟩ := exists_forall₂ h
  exact ⟨.list vs, conversion_eq_ok_iff.2 (.list hvs)⟩

/-- A map is taken if the values of its members are. -/
theorem exists_taken_map {value : Descriptor} {members : List (String × Json)}
    (h : ∀ member ∈ members, ∃ v,
      (conversion table matching value member.2).run = some (.ok v)) :
    ∃ v, (conversion table matching (.map value) (.object members)).run = some (.ok v) := by
  have hentry : ∀ member ∈ members, ∃ entry : String × Value, member.1 = entry.1 ∧
      (conversion table matching value member.2).run = some (.ok entry.2) := by
    intro member hmember
    obtain ⟨v, hv⟩ := h member hmember
    exact ⟨(member.1, v), rfl, hv⟩
  obtain ⟨entries, hentries⟩ := exists_forall₂ hentry
  exact ⟨.map entries, conversion_eq_ok_iff.2 (.map hentries)⟩

/-- A record is taken if its members are fields and its fields are taken. -/
theorem exists_taken_record {name : String} {r : Record} {members : List (String × Json)}
    (found : table.find? name = some (.record r))
    (declared : ∀ member ∈ members, ∃ field ∈ r.fields, field.name = member.1)
    (h : ∀ field ∈ r.fields, ∃ v,
      (conversion table).verdicts.TakesField matching members field v) :
    ∃ v, (conversion table matching (.named name) (.object members)).run = some (.ok v) := by
  have hentry : ∀ field ∈ r.fields, ∃ entry : String × Value, entry.1 = field.name ∧
      (conversion table).verdicts.TakesField matching members field entry.2 := by
    intro field hfield
    obtain ⟨v, hv⟩ := h field hfield
    exact ⟨(field.name, v), rfl, hv⟩
  obtain ⟨entries, hentries⟩ := exists_forall₂ hentry
  exact ⟨.record r.name (Entries.ofPairs entries),
    conversion_eq_ok_iff.2 (.record found declared hentries)⟩

/-- Where no default is reached, a union takes data if one of its alternatives takes it. -/
theorem exists_taken_union {alternatives : List Descriptor} {plain : Json}
    (free : table.DefaultFree (.union alternatives))
    (h : ∃ ty ∈ alternatives, ∃ v, (conversion table matching ty plain).run = some (.ok v)) :
    ∃ v, (conversion table matching (.union alternatives) plain).run = some (.ok v) := by
  have decided : ∀ matching, ∀ ty ∈ alternatives,
      (∃ v, (conversion table matching ty plain).run = some (.ok v)) ∨
      Refused table matching ty plain :=
    fun matching ty hty => taken_or_refused (free.alternative hty) matching plain
  by_cases hexact : ∃ ty ∈ table.exactOrder alternatives, ∃ v,
    (conversion table .exact ty plain).run = some (.ok v)
  · obtain ⟨before, ty, after, order, refused, v, htaken⟩ :=
      exists_first (fun ty hty => decided .exact ty (table.mem_exactOrder.1 hty)) hexact
    exact ⟨v, conversion_eq_ok_iff.2 (.exactly order refused htaken)⟩
  · have inexact : ∀ ty ∈ alternatives, Refused table .exact ty plain := by
      intro ty hty
      refine (decided .exact ty hty).resolve_left fun htaken => ?_
      exact hexact ⟨ty, table.mem_exactOrder.2 hty, htaken⟩
    cases matching with
    | exact =>
        obtain ⟨ty, hty, v, htaken⟩ := h
        exact absurd htaken (inexact ty hty).not_taken
    | coercing =>
        obtain ⟨before, ty, after, rfl, refused, v, htaken⟩ :=
          exists_first (decided .coercing) h
        exact ⟨v, conversion_eq_ok_iff.2 (.coerced rfl inexact refused htaken)⟩

end Parts

/-- A field without a default that takes its member in filled members takes what it has in the
unfilled ones, if the type does where the member is there before and after. -/
theorem exists_takesField_of_filled {table : Table} {matching : Matching} {field : Field}
    {members members' : List (String × Json)} {v' : Value} (hdefault : field.default = none)
    (filled : Filled matching (.object members) (.object members'))
    (taken : (conversion table).verdicts.TakesField .exact members' field v')
    (hpart : ∀ x x', members.lookup field.name = some x → members'.lookup field.name = some x' →
      Filled matching x x' → ∃ v, (conversion table matching field.type x).run = some (.ok v)) :
    ∃ v, (conversion table).verdicts.TakesField matching members field v := by
  simp only [Verdicts.TakesField, hdefault, Option.or_none] at taken ⊢
  cases filled with
  | scalar flat => simp [Json.depth] at flat
  | object kept hnull hmembers =>
      cases hlookup : members.lookup field.name with
      | some x =>
          obtain ⟨x', hx'⟩ :=
            Entries.exists_lookup (kept _ (Entries.mem_keys_of_lookup hlookup))
          exact hpart x x' hlookup hx' (hmembers _ _ _ hlookup hx')
      | none =>
          -- A member that was filled in is null, so the type admits null either way.
          refine ⟨.null, ?_, rfl⟩
          cases hlookup' : members'.lookup field.name with
          | some x' =>
              rw [hlookup', hnull _ _ hlookup' hlookup] at taken
              exact (admitsNull_of_taken taken).1
          | none =>
              rw [hlookup'] at taken
              exact taken.1

/-- **Filling makes no type take more.**  Where no default is reached, a type that takes the
filled data exactly takes the data itself in the way of matching in which it was filled. -/
theorem taken_of_filled {table : Table} {matching : Matching} {ty : Descriptor}
    {plain plain' : Json} {v' : Value} (free : table.DefaultFree ty)
    (hplain : plain.wellFormed = true) (filled : Filled matching plain plain')
    (h : (conversion table .exact ty plain').run = some (.ok v')) :
    ∃ v, (conversion table matching ty plain).run = some (.ok v) := by
  suffices hall : ∀ reading ty plain' v',
      (conversion table reading ty plain').run = some (.ok v') →
      reading = .exact → table.DefaultFree ty → ∀ plain, plain.wellFormed = true →
      Filled matching plain plain' →
      ∃ v, (conversion table matching ty plain).run = some (.ok v) by
    exact hall .exact ty plain' v' h rfl free plain hplain filled
  intro reading ty plain' v' h
  refine conversion_induction (motive := fun reading ty plain' _ => reading = .exact →
    table.DefaultFree ty → ∀ plain, plain.wellFormed = true → Filled matching plain plain' →
    ∃ v, (conversion table matching ty plain).run = some (.ok v)) ?_ h
  intro reading ty plain' v' step reading_exact free plain hplain filled
  subst reading_exact
  cases step with
  | primitive h =>
      obtain ⟨v, hv⟩ := Primitive.ofPlain_of_filled filled h
      exact ⟨v, conversion_eq_ok_iff.2 (.primitive hv)⟩
  | absent =>
      rw [filled.eq_null]
      exact ⟨.null, conversion_eq_ok_iff.2 .absent⟩
  | @present inner _ _ present h =>
      have hpresent : plain ≠ .null := by
        rintro rfl
        exact present filled.of_null
      rw [conversion_optional table matching inner hpresent]
      exact h.2 rfl free.inner plain hplain filled
  | @exactly alternatives before after ty _ _ order _ h =>
      have hty : ty ∈ alternatives :=
        table.mem_exactOrder.1 (order ▸ List.mem_append_right _ List.mem_cons_self)
      exact exists_taken_union free
        ⟨ty, hty, h.2 rfl (free.alternative hty) plain hplain filled⟩
  | coerced coercing _ _ _ => contradiction
  | @list item items' _ h =>
      cases filled with
      | scalar flat => simp [Json.depth] at flat
      | @array items _ hitems =>
          rw [Json.wellFormed_array_iff] at hplain
          refine exists_taken_list fun x hx => ?_
          obtain ⟨x', hx', hfilled⟩ := exists_right_of_forall₂ hitems hx
          obtain ⟨v', -, -, htaken⟩ := exists_right_of_forall₂ h hx'
          exact htaken rfl free.item x (hplain x hx) hfilled
  | @map value members' _ h =>
      cases filled with
      | scalar flat => simp [Json.depth] at flat
      | @object members _ kept _ hmembers =>
          obtain ⟨hnodup, hwell⟩ := Json.wellFormed_object_iff.1 hplain
          refine exists_taken_map fun member hmember => ?_
          have hlookup := (Entries.lookup_eq_some_iff_mem hnodup).2 hmember
          obtain ⟨x', hx'⟩ := Entries.exists_lookup (kept _ (List.mem_map_of_mem hmember))
          obtain ⟨entry, -, -, -, htaken⟩ :=
            exists_right_of_forall₂ h (Entries.mem_of_lookup hx')
          exact htaken rfl free.value member.2 (hwell member hmember)
            (hmembers _ _ _ hlookup hx')
  | enum found h =>
      cases filled
      exact ⟨_, conversion_eq_ok_iff.2 (.enum found h)⟩
  | @record name r members' fields found declared h =>
      cases filled with
      | scalar flat => simp [Json.depth] at flat
      | @object members _ kept hnull hmembers =>
          have hdeclared : ∀ member ∈ members, ∃ field ∈ r.fields, field.name = member.1 := by
            intro member hmember
            obtain ⟨x', hx'⟩ := Entries.mem_keys.1 (kept _ (List.mem_map_of_mem hmember))
            exact declared (member.1, x') hx'
          refine exists_taken_record found hdeclared fun field hfield => ?_
          obtain ⟨⟨key, v'⟩, -, -, htaken⟩ := exists_right_of_forall₂ h hfield
          have hmember : ∀ x x', members.lookup field.name = some x →
              members'.lookup field.name = some x' →
              Filled matching x x' →
              ∃ v, (conversion table matching field.type x).run = some (.ok v) := by
            intro x x' hx hx' hfilled
            rw [Verdicts.TakesField, hx', Option.some_or] at htaken
            exact htaken.2 rfl (free.field found hfield) x (Json.wellFormed_of_lookup hplain hx)
              hfilled
          have hexact : (conversion table).verdicts.TakesField .exact members' field v' :=
            htaken.mono fun _ _ _ _ => And.left
          exact exists_takesField_of_filled (free.default_eq_none found hfield)
            (.object kept hnull hmembers) hexact hmember

end AvroBindings
