import Mathlib.Logic.Relation
import AvroBindings.Proofs.Schema.Inlined
import AvroBindings.Proofs.Schema.Registry

/-!
# Names spelled out

A name may be written with its namespace, beside a member that states it, or bare in a scope
that gives it.  Qualification makes the same of all these spellings.

## Main Definitions

* `Schema.Spelling` — one schema names what another names, with more of the namespace written
  down.
* `Schema.SpelledOut` — the same at one type position inside.
* `Schema.Alike` — two schemas read in a scope are equal with full names, and make equal
  definitions.

## Main Statements

* `Schema.Spelling.alike`, `Schema.SpelledOut.alike` — another spelling of a name makes no
  difference.
* `Schema.qualifyIn_spelledOut` — nor do several, in whichever places.

## Design Notes

**Order of members.**  A definition may be spelled anew with its members in another order; full
names replace one member and take out another.  What comes out is therefore equal as a tree, and
not the same.
-/

namespace AvroBindings

namespace Schema

/-! ## Spellings -/

/-- **A schema spelled in another way**, read in a scope: a reference, or a definition by the
namespace that it states, with the namespace in its name; or a definition that states the
namespace of the scope. -/
inductive Spelling : String → Json → Json → Prop
  | reference {scope name : String} (undotted : Name.isDotted name = false)
      (custom : name ∉ primitiveNames) (around : scope ≠ "") :
      Spelling scope (.string name) (.string (scope ++ "." ++ name))
  | dotted {scope space name : String} {members members' : List (String × Json)}
      (definition : IsDefinition (.object members))
      (stated : members.lookup "name" = some (.string name))
      (undotted : Name.isDotted name = false)
      (within : members.lookup "namespace" = some (.string space)) (nonempty : space ≠ "")
      (spelled : members'.lookup "name" = some (.string (space ++ "." ++ name)))
      (others : ∀ key, key ≠ "name" → key ≠ "namespace" →
        members'.lookup key = members.lookup key)
      (wellFormed : (Json.object members').wellFormed = true) :
      Spelling scope (.object members) (.object members')
  | explicit {scope name : String} {members members' : List (String × Json)}
      (definition : IsDefinition (.object members))
      (stated : members.lookup "name" = some (.string name))
      (undotted : Name.isDotted name = false) (within : members.lookup "namespace" = none)
      (spelled : members'.lookup "namespace" = some (.string scope))
      (others : ∀ key, key ≠ "namespace" → members'.lookup key = members.lookup key)
      (wellFormed : (Json.object members').wellFormed = true) :
      Spelling scope (.object members) (.object members')

/-- **A schema with one name spelled in another way**: at a type position of it, read in the
scope there. -/
inductive SpelledOut : String → Json → Json → Prop
  | here {scope : String} {x y : Json} (spelling : Spelling scope x y) : SpelledOut scope x y
  | item {scope : String} {x y : Json} (before after : List Json)
      (inside : SpelledOut scope x y) :
      SpelledOut scope (.array (before ++ x :: after)) (.array (before ++ y :: after))
  | inner {scope key : String} {members : List (String × Json)} {x y : Json}
      (only : innerKey? members = some key) (found : members.lookup key = some x)
      (inside : SpelledOut scope x y) :
      SpelledOut scope (.object members) (.object (Entries.insert key y members))
  | field {scope kind : String} {members : List (String × Json)} {x y : Json}
      (before : List Json) (fieldMembers : List (String × Json)) (after : List Json)
      (stated : members.lookup "type" = some (.string kind)) (record : isRecordKind kind = true)
      (fields : members.lookup "fields" =
        some (.array (before ++ .object fieldMembers :: after)))
      (found : fieldMembers.lookup "type" = some x)
      (inside : SpelledOut (Name.space (declaredName scope members)) x y) :
      SpelledOut scope (.object members) (.object (retype before fieldMembers after y members))

/-- **Two schemas are alike** in a scope: something is missing in both or in none, and with full
names they are equal and make equal definitions in one order. -/
structure Alike (scope : String) (x y : Json) : Prop where
  wellFormed : WellFormed scope x ↔ WellFormed scope y
  qualified : (qualified scope x).same (qualified scope y) = true
  definitions : List.Forall₂ Registry.SameEntry (definitions scope x) (definitions scope y)

/-! ## Schemas that are alike -/

section Alike

variable {scope : String} {x y z : Json}

theorem Alike.refl (hx : x.wellFormed = true) : Alike scope x x where
  wellFormed := Iff.rfl
  qualified := Json.same_self (wellFormed_qualified scope x hx)
  definitions := Registry.sameEntries_refl fun _ => wellFormed_of_mem_definitions hx

theorem Alike.trans (hx : x.wellFormed = true) (hy : y.wellFormed = true)
    (hz : z.wellFormed = true) (hxy : Alike scope x y) (hyz : Alike scope y z) :
    Alike scope x z where
  wellFormed := hxy.wellFormed.trans hyz.wellFormed
  qualified :=
    Json.same_trans (wellFormed_qualified scope x hx) (wellFormed_qualified scope y hy)
      (wellFormed_qualified scope z hz) hxy.qualified hyz.qualified
  definitions := by
    refine forall₂_trans (fun a ha b hb c hc hab hbc => ?_) hxy.definitions hyz.definitions
    exact hab.trans (wellFormed_of_mem_definitions hx ha) (wellFormed_of_mem_definitions hy hb)
      (wellFormed_of_mem_definitions hz hc) hbc

/-- Schemas are alike if they are alike outside and their parts are. -/
theorem Alike.of_parts
    (hcomplete :
      (∀ members kind, x = .object members → members.lookup "type" = some (.string kind) →
        Complete scope kind members) ↔ ∀ members kind, y = .object members →
          members.lookup "type" = some (.string kind) → Complete scope kind members)
    (hqualified : (Schema.qualified scope x).same (Schema.qualified scope y) = true)
    (hparts : List.Forall₂ (fun part other => part.1 = other.1 ∧ Alike part.1 part.2 other.2)
      (parts scope x) (parts scope y))
    (hown : List.Forall₂ Registry.SameEntry (ownDefinition scope x) (ownDefinition scope y)) :
    Alike scope x y := by
  refine ⟨?_, hqualified, ?_⟩
  · rw [wellFormed_iff, wellFormed_iff]
    refine and_congr hcomplete ⟨fun h other hother => ?_, fun h part hpart => ?_⟩
    · obtain ⟨part, hpart, hscope, halike⟩ := exists_left_of_forall₂ hparts hother
      exact hscope ▸ halike.wellFormed.1 (h part hpart)
    · obtain ⟨other, hother, hscope, halike⟩ := exists_right_of_forall₂ hparts hpart
      exact halike.wellFormed.2 (hscope ▸ h other hother)
  · rw [definitions_eq, definitions_eq scope y]
    exact List.rel_append (List.rel_flatMap hparts fun part other h => h.1 ▸ h.2.definitions)
      hown

/-- Unions are alike if they differ in members that are. -/
theorem Alike.array {before after : List Json} (h : Alike scope x y)
    (hwell : (Json.array (before ++ x :: after)).wellFormed = true) :
    Alike scope (.array (before ++ x :: after)) (.array (before ++ y :: after)) := by
  obtain ⟨hbefore, -, hafter⟩ := Json.wellFormed_array_middle_iff.1 hwell
  refine .of_parts (by simp) ?_ ?_ .nil
  · rw [Schema.qualified, Schema.qualified, qualifiedItems_eq_map, qualifiedItems_eq_map,
      List.map_append, List.map_append, List.map_cons, List.map_cons]
    refine Json.same_array_middle ?_ ?_ h.qualified
    · exact List.forall_mem_map.2 fun item hitem =>
        wellFormed_qualified scope item (hbefore item hitem)
    · exact List.forall_mem_map.2 fun item hitem =>
        wellFormed_qualified scope item (hafter item hitem)
  · simp only [parts, List.map_append, List.map_cons]
    refine forall₂_middle ?_ ?_ ⟨rfl, h⟩
    · exact List.forall_mem_map.2 fun item hitem => ⟨rfl, .refl (hbefore item hitem)⟩
    · exact List.forall_mem_map.2 fun item hitem => ⟨rfl, .refl (hafter item hitem)⟩

/-- Members with full names in the schema at a key are equal if this is. -/
theorem same_qualifiedMember_insert {key : String} {members : List (String × Json)}
    (hwell : (Json.object members).wellFormed = true) (hfound : members.lookup key = some x)
    (h : (qualified scope x).same (qualified scope y) = true) :
    (Json.object (qualifiedMember key scope members)).same
      (.object (qualifiedMember key scope (Entries.insert key y members))) = true := by
  obtain ⟨hnodup, hvalues⟩ := Json.wellFormed_object_iff.1 hwell
  have hnodup' : (Entries.keys (qualifiedMember key scope members)).Nodup :=
    keys_qualifiedMember key scope members ▸ hnodup
  have hqualified : (Json.object (qualifiedMember key scope members)).wellFormed = true :=
    Json.wellFormed_object_iff.2 ⟨hnodup', wellFormed_qualifiedMember key scope members hvalues⟩
  refine Json.same_object_of_related ⟨hnodup', ?_, fun other => ?_⟩
  · rw [keys_qualifiedMember]
    exact Entries.keys_nodup_insert hnodup
  · rw [lookup_qualifiedMember_insert]
    split
    next hother =>
      rw [hother, lookup_qualifiedMember_self, hfound]
      exact .some h
    next => exact Json.member?_same_self hqualified other

/-- Nothing is missing in a container that has its part. -/
theorem complete_of_partKey? {kind key : String} {members : List (String × Json)}
    (hpart : partKey? kind = some key) (hfound : members.lookup key = some x) :
    Complete scope kind members := by
  rw [complete_iff_of_isNamedKind_eq_false (isNamedKind_of_partKey? hpart)]
  intro other hother
  obtain rfl := Option.some.inj (hpart.symm.trans hother)
  exact Entries.mem_keys_of_lookup hfound

/-- Objects with one part are alike if they differ in parts that are. -/
theorem Alike.inner {key : String} {members : List (String × Json)} (h : Alike scope x y)
    (hwell : (Json.object members).wellFormed = true) (hkey : innerKey? members = some key)
    (hfound : members.lookup key = some x)
    (hcompound : ((∃ inside, x = .object inside) ∨ ∃ items, x = .array items) →
      (∃ inside, y = .object inside) ∨ ∃ items, y = .array items) :
    Alike scope (.object members) (.object (Entries.insert key y members)) := by
  have hkey' := innerKey?_insert hkey hfound hcompound
  have hfound' := Entries.lookup_insert_self key y members
  refine .of_parts ?_ ?_ ?_ ?_
  · rcases innerKey?_eq_some_iff.1 hkey with
      ⟨kind, hkind, hpart⟩ | ⟨inner, hinner, hstated, rfl⟩
    · have hkind' : (Entries.insert key y members).lookup "type" = some (.string kind) := by
        rw [Entries.lookup_insert, if_neg (partKey?_ne_type hpart), hkind]
      rw [complete_object_iff hkind, complete_object_iff hkind']
      exact iff_of_true (complete_of_partKey? hpart hfound) (complete_of_partKey? hpart hfound')
    · -- Neither object states a kind.
      obtain rfl := Option.some.inj (hinner.symm.trans hfound)
      refine iff_of_true ?_ ?_
      · rintro _ kind ⟨⟩ hkind
        rcases hstated with ⟨inside, rfl⟩ | ⟨items, rfl⟩ <;> simp [hinner] at hkind
      · rintro _ kind ⟨⟩ hkind
        rcases hcompound hstated with ⟨inside, rfl⟩ | ⟨items, rfl⟩ <;> simp [hfound'] at hkind
  · rw [qualified_of_innerKey? hkey, qualified_of_innerKey? hkey']
    exact same_qualifiedMember_insert hwell hfound h.qualified
  · rw [parts_of_innerKey? hkey hfound, parts_of_innerKey? hkey' hfound']
    exact .cons ⟨rfl, h⟩ .nil
  · rw [ownDefinition_of_innerKey? hkey, ownDefinition_of_innerKey? hkey']
    exact .nil

/-- Definitions of one full name are alike if something is missing in both or in none, and if
their members with full names and their parts are equal and alike. -/
theorem Alike.definition {kind : String} {members others : List (String × Json)}
    (hwell : (Json.object members).wellFormed = true)
    (hwell' : (Json.object others).wellFormed = true)
    (hkind : members.lookup "type" = some (.string kind))
    (hkind' : others.lookup "type" = some (.string kind)) (hnamed : isNamedKind kind = true)
    (hdeclared : declaredName scope others = declaredName scope members)
    (hcomplete : Complete scope kind members ↔ Complete scope kind others)
    (hmember : ∀ key,
      Option.Rel (fun x y => x.same y = true)
        ((Schema.qualified scope (.object members)).member? key)
        ((Schema.qualified scope (.object others)).member? key))
    (hparts : List.Forall₂ (fun part other => part.1 = other.1 ∧ Alike part.1 part.2 other.2)
      (parts scope (.object members)) (parts scope (.object others))) :
    Alike scope (.object members) (.object others) := by
  have hsame : (Schema.qualified scope (.object members)).same
      (Schema.qualified scope (.object others)) = true := by
    have hqualified := wellFormed_qualified scope _ hwell
    have hqualified' := wellFormed_qualified scope _ hwell'
    obtain ⟨ms, hms⟩ := exists_qualified_eq_object scope members
    obtain ⟨ns, hns⟩ := exists_qualified_eq_object scope others
    rw [hms] at hqualified hmember ⊢
    rw [hns] at hqualified' hmember ⊢
    exact Json.same_object_of_related ⟨(Json.wellFormed_object_iff.1 hqualified).1,
      (Json.wellFormed_object_iff.1 hqualified').1, hmember⟩
  refine .of_parts ?_ hsame hparts ?_
  · rw [complete_object_iff hkind, complete_object_iff hkind']
    exact hcomplete
  · rw [ownDefinition_of_kind scope hkind hnamed, ownDefinition_of_kind scope hkind' hnamed]
    exact .cons ⟨hdeclared.symm, hsame⟩ .nil

section Field

variable {kind : String} {members fieldMembers : List (String × Json)}
  {before after : List Json} (hkind : members.lookup "type" = some (.string kind))
  (hrecord : isRecordKind kind = true)
  (hfields : members.lookup "fields" = some (.array (before ++ .object fieldMembers :: after)))
  (hfound : fieldMembers.lookup "type" = some x)

include hrecord hfields hfound

/-- Where the type of a field is replaced, a record misses what it missed. -/
theorem complete_retype_iff (scope : String) (y : Json) :
    Complete scope kind members ↔
      Complete scope kind (retype before fieldMembers after y members) := by
  have hnamed := isNamedKind_of_isRecordKind hrecord
  have htype := Entries.mem_keys_of_lookup hfound
  have htype' := Entries.mem_keys_of_lookup (Entries.lookup_insert_self "type" y fieldMembers)
  have hname : (Json.object (retype before fieldMembers after y members)).textMember? "name" =
      (Json.object members).textMember? "name" := by
    rw [Json.textMember?, Json.textMember?, Json.member?, Json.member?,
      lookup_retype_of_ne (by decide)]
  rw [complete_iff_of_isNamedKind hnamed, complete_iff_of_isNamedKind hnamed, hname,
    declaredName_retype, hfields, lookup_fields_retype]
  simp only [Option.some.injEq, Json.array.injEq, exists_eq_left', List.forall_mem_append,
    List.forall_mem_cons]
  simp [htype, htype']

include hkind

/-- Records are alike if they differ in the type of a field, and this is alike. -/
theorem Alike.field (h : Alike (Name.space (declaredName scope members)) x y)
    (hwell : (Json.object members).wellFormed = true) (hy : y.wellFormed = true) :
    Alike scope (.object members) (.object (retype before fieldMembers after y members)) := by
  have hnodup := (Json.wellFormed_object_iff.1 hwell).1
  have hkind' : (retype before fieldMembers after y members).lookup "type" =
      some (.string kind) := by
    rw [lookup_retype_of_ne (by decide), hkind]
  have hfound' := Entries.lookup_insert_self "type" y fieldMembers
  obtain ⟨hbefore, hfield, hafter⟩ :=
    Json.wellFormed_array_middle_iff.1 (Json.wellFormed_of_lookup hwell hfields)
  refine .definition hwell (wellFormed_retype hwell hfields hy) hkind hkind'
    (isNamedKind_of_isRecordKind hrecord) (declaredName_retype scope)
    (complete_retype_iff hrecord hfields hfound scope y) (fun key => ?_) ?_
  · by_cases hkey : key = "fields"
    · rw [hkey, member?_fields_qualified scope hnodup hkind hrecord hfields,
        member?_fields_qualified_retype hnodup hkind hrecord, qualifiedFields_eq_map,
        List.map_append, List.map_cons,
        qualifiedField, ← qualifiedFields_eq_map, ← qualifiedFields_eq_map]
      refine .some
        (Json.same_array_middle ?_ ?_ (same_qualifiedMember_insert hfield hfound h.qualified))
      · exact wellFormed_qualifiedFields _ before hbefore
      · exact wellFormed_qualifiedFields _ after hafter
    · rw [member?_qualified_retype hnodup hkind hrecord hkey]
      exact Json.member?_same_self (wellFormed_qualified scope _ hwell) key
  · rw [parts_of_fields hkind hrecord hfields hfound,
      parts_of_fields hkind' hrecord lookup_fields_retype hfound',
      declaredName_retype]
    refine forall₂_middle ?_ ?_ ⟨rfl, h⟩
    · exact List.forall_mem_map.2 fun ty hty =>
        ⟨rfl, .refl (wellFormed_of_mem_fieldTypes hbefore hty)⟩
    · exact List.forall_mem_map.2 fun ty hty =>
        ⟨rfl, .refl (wellFormed_of_mem_fieldTypes hafter hty)⟩

end Field

end Alike

/-! ## Spellings that are alike -/

section Spelling

variable {scope : String} {x y : Json}

/-- Definitions of one full name whose other members are the same are alike. -/
theorem Alike.of_others {members others : List (String × Json)}
    (hwell : (Json.object members).wellFormed = true)
    (hwell' : (Json.object others).wellFormed = true)
    (hdefinition : IsDefinition (.object members))
    (hname : ((Json.object members).textMember? "name").isSome =
      ((Json.object others).textMember? "name").isSome)
    (hdeclared : declaredName scope others = declaredName scope members)
    (hothers : ∀ key, key ≠ "name" → key ≠ "namespace" →
      others.lookup key = members.lookup key) :
    Alike scope (.object members) (.object others) := by
  obtain ⟨kind, hkind, hnamed⟩ := isDefinition_object_iff.1 hdefinition
  have hkind' : others.lookup "type" = some (.string kind) := by
    rw [hothers "type" (by decide) (by decide), hkind]
  have hfields := hothers "fields" (by decide) (by decide)
  refine .definition hwell hwell' hkind hkind' hnamed hdeclared ?_ (fun key => ?_) ?_
  · rw [complete_iff_of_isNamedKind hnamed, complete_iff_of_isNamedKind hnamed, hname,
      hdeclared, hfields]
  · rw [member?_qualified_congr (Json.wellFormed_object_iff.1 hwell).1
      (Json.wellFormed_object_iff.1 hwell').1 hkind
      hkind' hnamed hdeclared (hothers key)]
    exact Json.member?_same_self (wellFormed_qualified scope _ hwell) key
  · have hparts : parts scope (.object others) = parts scope (.object members) := by
      simp only [parts, hkind, hkind', hfields, hdeclared, partKey?_of_isNamedKind hnamed,
        Option.bind_none]
    rw [hparts, List.forall₂_same]
    exact fun part hpart =>
      ⟨rfl, .refl (Json.wellFormed_of_within hwell (within_of_mem_parts hpart))⟩

/-- **A schema spelled in another way is alike.** -/
theorem Spelling.alike (h : Spelling scope x y) (hx : x.wellFormed = true) :
    Alike scope x y := by
  cases h with
  | @reference name hundotted hcustom hscope =>
      have hfull : qualifyReference scope name = scope ++ "." ++ name := by
        rw [qualifyReference, if_neg (by simpa using hcustom),
          Name.qualify_of_not_isDotted hundotted hscope]
      have hfull' : qualifyReference scope (scope ++ "." ++ name) = scope ++ "." ++ name := by
        rw [← hfull, qualifyReference_qualifyReference]
      refine .of_parts (by simp) ?_ .nil .nil
      rw [qualified, qualified, hfull, hfull']
      exact Json.same_self rfl
  | @dotted space name members members' hdefinition hstated hundotted hspace hne hspelled
      hothers hy =>
      refine .of_others hx hy hdefinition ?_ ?_ hothers
      · simp [Json.textMember?, Json.member?, hstated, hspelled, Json.text?]
      · simp only [declaredName, Json.textMember?, Json.member?, hstated, hspelled, hspace,
          Option.bind_some, Json.text?, Option.getD_some]
        rw [Name.qualify_of_isDotted (Name.isDotted_dot _ _),
          Name.qualify_of_not_isDotted hundotted hne]
  | @explicit name members members' hdefinition hstated hundotted hspace hspelled hothers hy =>
      have hname := hothers "name" (by decide)
      refine .of_others hx hy hdefinition ?_ ?_ fun key _ => hothers key
      · simp only [Json.textMember?, Json.member?, hname]
      · simp only [declaredName, Json.textMember?, Json.member?, hname, hspelled, hspace,
          Option.bind_some, Option.bind_none, Json.text?, Option.getD_some, Option.getD_none]

theorem Spelling.wellFormed (h : Spelling scope x y) : y.wellFormed = true := by
  cases h with
  | reference => rfl
  | dotted _ _ _ _ _ _ _ hy => exact hy
  | explicit _ _ _ _ _ _ hy => exact hy

/-- An object or an array stays one in another spelling. -/
theorem SpelledOut.compound (h : SpelledOut scope x y)
    (hcompound : (∃ inside, x = .object inside) ∨ ∃ items, x = .array items) :
    (∃ inside, y = .object inside) ∨ ∃ items, y = .array items := by
  cases h with
  | here hspelling =>
      cases hspelling with
      | reference => simp at hcompound
      | dotted => exact .inl ⟨_, rfl⟩
      | explicit => exact .inl ⟨_, rfl⟩
  | item => exact .inr ⟨_, rfl⟩
  | inner => exact .inl ⟨_, rfl⟩
  | field => exact .inl ⟨_, rfl⟩

/-- **Another spelling of one name makes no difference**, and leaves a well-formed tree. -/
theorem SpelledOut.alike (h : SpelledOut scope x y) (hx : x.wellFormed = true) :
    y.wellFormed = true ∧ Alike scope x y := by
  induction h with
  | here hspelling => exact ⟨hspelling.wellFormed, hspelling.alike hx⟩
  | item before after _ ih =>
      obtain ⟨hbefore, hinside, hafter⟩ := Json.wellFormed_array_middle_iff.1 hx
      obtain ⟨hy, halike⟩ := ih hinside
      exact ⟨Json.wellFormed_array_middle_iff.2 ⟨hbefore, hy, hafter⟩, halike.array hx⟩
  | inner hkey hfound hinside ih =>
      obtain ⟨hy, halike⟩ := ih (Json.wellFormed_of_lookup hx hfound)
      exact ⟨Json.wellFormed_insert hx hy, halike.inner hx hkey hfound hinside.compound⟩
  | field before fieldMembers after hkind hrecord hfields hfound _ ih =>
      have hitems := Json.wellFormed_array_middle_iff.1 (Json.wellFormed_of_lookup hx hfields)
      obtain ⟨hy, halike⟩ := ih (Json.wellFormed_of_lookup hitems.2.1 hfound)
      exact ⟨wellFormed_retype hx hfields hy, halike.field hkind hrecord hfields hfound hx hy⟩

/-- **Nor do other spellings of several names**, one after another. -/
theorem alike_of_reflTransGen (h : Relation.ReflTransGen (SpelledOut scope) x y)
    (hx : x.wellFormed = true) :
    y.wellFormed = true ∧ Alike scope x y := by
  induction h with
  | refl => exact ⟨hx, .refl hx⟩
  | tail _ hstep ih =>
      obtain ⟨hy, halike⟩ := ih
      obtain ⟨hz, hnext⟩ := hstep.alike hy
      exact ⟨hz, halike.trans hx hy hz hnext⟩

end Spelling

/-! ## Qualification -/

/-- **The spelling of names does not matter.**  However many names of a schema are spelled in
another way, it is qualified in a registry if and only if it was.  What comes out is then equal
as a tree, and the registry has the same names in the same order, with equal definitions. -/
theorem qualifyIn_spelledOut {registry : Registry} (hnodup : (Entries.keys registry).Nodup)
    (hregistry : ∀ entry ∈ registry, entry.2.wellFormed = true) {scope : String}
    {schema schema' : Json} (hschema : schema.wellFormed = true)
    (h : Relation.ReflTransGen (SpelledOut scope) schema schema') :
    (qualifyIn registry scope schema).1.isOk = (qualifyIn registry scope schema').1.isOk ∧
      ∀ q q' after after', qualifyIn registry scope schema = (.ok q, after) →
        qualifyIn registry scope schema' = (.ok q', after') →
        q.same q' = true ∧ List.Forall₂ Registry.SameEntry after after' := by
  obtain ⟨hschema', halike⟩ := alike_of_reflTransGen h hschema
  have hentries := List.rel_append (Registry.sameEntries_refl hregistry) halike.definitions
  have hdefinitions : ∀ definition ∈ definitions scope schema, definition.2.wellFormed = true :=
    fun _ => wellFormed_of_mem_definitions hschema
  have hdefinitions' : ∀ definition ∈ definitions scope schema',
      definition.2.wellFormed = true :=
    fun _ => wellFormed_of_mem_definitions hschema'
  constructor
  · rw [Bool.eq_iff_iff, isOk_qualifyIn_iff hnodup hregistry hschema,
      isOk_qualifyIn_iff hnodup hregistry hschema']
    refine and_congr halike.wellFormed (Registry.consistent_iff_of_sameEntries ?_ ?_ hentries)
    · exact List.forall_mem_append.2 ⟨hregistry, hdefinitions⟩
    · exact List.forall_mem_append.2 ⟨hregistry, hdefinitions'⟩
  · intro q q' after after' hrun hrun'
    obtain ⟨-, rfl, rfl⟩ := (qualifyIn_eq_ok_iff hnodup hregistry hschema).1 hrun
    obtain ⟨-, rfl, rfl⟩ := (qualifyIn_eq_ok_iff hnodup hregistry hschema').1 hrun'
    exact ⟨halike.qualified, Registry.sameEntries_extend (Registry.sameEntries_refl hregistry)
      halike.definitions⟩

/-- A record with two fields, in the namespace that is stated. -/
def outerOf (stated : List (String × Json)) (kind next : Json) : Json :=
  .object (stated ++ [("type", .string "record"), ("name", .string "Outer"),
    ("fields", .array [
      .object [("name", .string "kind"), ("type", kind)],
      .object [("name", .string "next"), ("type", next)]])])

/-- A name in one of the fields may be spelled in another way. -/
theorem spelledOut_outerOf {kind kind' next next' : Json} (hkind : SpelledOut "a" kind kind')
    (hnext : SpelledOut "a" next next') :
    Relation.ReflTransGen (SpelledOut "a") (outerOf [("namespace", .string "a")] kind next)
      (outerOf [("namespace", .string "a")] kind' next') := by
  have hspace : ∀ kind next,
      Name.space (declaredName "a" [("namespace", .string "a"), ("type", .string "record"),
      ("name", .string "Outer"),
      ("fields", .array [.object [("name", .string "kind"), ("type", kind)],
        .object [("name", .string "next"), ("type", next)]])]) = "a" := by
    intro kind next
    show Name.space (Name.qualify "a" "Outer") = "a"
    decide
  have hfirst : SpelledOut "a" (outerOf [("namespace", .string "a")] kind next)
      (outerOf [("namespace", .string "a")] kind' next) := by
    refine .field [] [("name", .string "kind"), ("type", kind)]
      [.object [("name", .string "next"), ("type", next)]] rfl (show _ by decide) rfl rfl ?_
    rwa [List.cons_append, List.nil_append, hspace]
  have hsecond : SpelledOut "a" (outerOf [("namespace", .string "a")] kind' next)
      (outerOf [("namespace", .string "a")] kind' next') := by
    refine .field [.object [("name", .string "kind"), ("type", kind')]]
      [("name", .string "next"), ("type", next)] [] rfl (show _ by decide) rfl rfl ?_
    rwa [List.cons_append, List.nil_append, hspace]
  exact .tail (.single hfirst) hsecond

/-- A record with an enum and with itself, in the scope of a namespace and where the enum is
known already.  It may state the namespace, the enum may have its own in its name, and the
reference may be a full name. -/
theorem qualifyIn_spelledOut_outerOf :
    let registry : Registry :=
      [("b.Kind", .object [("name", .string "b.Kind"), ("type", .string "enum"),
        ("symbols", .array [.string "X"])])]
    let schema := outerOf []
      (.object [("type", .string "enum"), ("name", .string "Kind"), ("namespace", .string "b"),
        ("symbols", .array [.string "X"])]) (.string "Outer")
    let schema' :=
      outerOf [("namespace", .string "a")]
        (.object [("symbols", .array [.string "X"]), ("type", .string "enum"),
          ("name", .string "b.Kind")]) (.string "a.Outer")
    Relation.ReflTransGen (SpelledOut "a") schema schema' ∧
      ∃ q q' after after', qualifyIn registry "a" schema = (.ok q, after) ∧
        qualifyIn registry "a" schema' = (.ok q', after') ∧ q.same q' = true ∧
        List.Forall₂ Registry.SameEntry after after' := by
  intro registry schema schema'
  have hnodup : (Entries.keys registry).Nodup := by decide
  have hregistry : ∀ entry ∈ registry, entry.2.wellFormed = true :=
    List.forall_mem_singleton.2 (by decide)
  have hschema : schema.wellFormed = true := by decide
  have hrecord : ∀ kind next,
      (outerOf [("namespace", .string "a")] kind next).wellFormed = true →
      SpelledOut "a" (outerOf [] kind next)
        (outerOf [("namespace", .string "a")] kind next) := by
    intro kind next hwell
    have hundotted : Name.isDotted "Outer" = false := by decide
    refine .here (.explicit ⟨"record", rfl, rfl⟩ rfl hundotted rfl rfl ?_ hwell)
    intro key hkey
    simp [List.lookup_cons, beq_eq_false_iff_ne.2 hkey]
  have henum : SpelledOut "a" (.object [("type", .string "enum"), ("name", .string "Kind"),
        ("namespace", .string "b"), ("symbols", .array [.string "X"])])
      (.object [("symbols", .array [.string "X"]), ("type", .string "enum"),
        ("name", .string "b.Kind")]) := by
    refine .here (.dotted ⟨"enum", rfl, rfl⟩ rfl (by decide) rfl (by decide) rfl
      (fun key hname hspace => ?_) (by decide))
    by_cases hkey : key = "symbols"
    · subst hkey
      rfl
    · simp [List.lookup_cons, beq_eq_false_iff_ne.2 hname, beq_eq_false_iff_ne.2 hspace,
        beq_eq_false_iff_ne.2 hkey]
  have hreference : SpelledOut "a" (.string "Outer") (.string "a.Outer") :=
    .here (.reference (by decide) (by decide) (by decide))
  have hspelled : Relation.ReflTransGen (SpelledOut "a") schema schema' :=
    .head (hrecord _ _ (by decide)) (spelledOut_outerOf henum hreference)
  obtain ⟨-, hsame⟩ := qualifyIn_spelledOut hnodup hregistry hschema hspelled
  have hrun : ∃ q after, qualifyIn registry "a" schema = (.ok q, after) := ⟨_, _, rfl⟩
  have hrun' : ∃ q after, qualifyIn registry "a" schema' = (.ok q, after) := ⟨_, _, rfl⟩
  obtain ⟨q, after, hrun⟩ := hrun
  obtain ⟨q', after', hrun'⟩ := hrun'
  exact ⟨hspelled, q, q', after, after', hrun, hrun', hsame q q' after after' hrun hrun'⟩

end Schema

end AvroBindings
