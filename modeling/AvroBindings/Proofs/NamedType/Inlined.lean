import AvroBindings.Proofs.NamedType.Described
import AvroBindings.Proofs.Schema.Inlined

/-!
# Descriptions of inlined definitions

A description cannot tell a definition from a reference to it: either gives the reference, by
the full name of the definition.

## Main Statements

* `Schema.Inlines.agree` — a node has the descriptor that it had before a definition was put
  into it.
* `Schema.Respelled.ofSchema_iff` — a respelled definition is described as it was.
-/

namespace AvroBindings

/-! ## Nodes -/

namespace Descriptor

/-- **Two nodes have one descriptor**, or none of them has one. -/
def Agree (lead : String) (x y : Json) : Prop :=
  ∀ ty, ofNode lead x = .ok ty ↔ ofNode lead y = .ok ty

/-- Objects of one kind have one descriptor if their members are the same or have one. -/
theorem Agree.object {lead : String} {members others : List (String × Json)}
    (hkind : ∀ kind, members.lookup "type" = some (.string kind) ↔
      others.lookup "type" = some (.string kind))
    (hpart : ∀ key ∈ ["name", "values", "items"], members.lookup key = others.lookup key ∨
      ∃ x y, members.lookup key = some x ∧ others.lookup key = some y ∧ Agree lead x y) :
    Agree lead (.object members) (.object others) := by
  intro ty
  constructor
  · refine ofNode_object_of_members (fun kind => (hkind kind).1)
      fun key hkey node part hnode hty => ?_
    rcases hpart key hkey with hsame | ⟨x, y, hx, hy, hagree⟩
    · exact ⟨node, hsame ▸ hnode, hty⟩
    · obtain rfl := Option.some.inj (hx.symm.trans hnode)
      exact ⟨y, hy, (hagree part).1 hty⟩
  · refine ofNode_object_of_members (fun kind => (hkind kind).2)
      fun key hkey node part hnode hty => ?_
    rcases hpart key hkey with hsame | ⟨x, y, hx, hy, hagree⟩
    · exact ⟨node, hsame ▸ hnode, hty⟩
    · obtain rfl := Option.some.inj (hy.symm.trans hnode)
      exact ⟨x, hx, (hagree part).2 hty⟩

/-- Arrays that differ in items of one descriptor have one. -/
theorem Agree.array {lead : String} {x y : Json} (h : Agree lead x y)
    (before after : List Json) :
    Agree lead (.array (before ++ x :: after)) (.array (before ++ y :: after)) := by
  intro ty
  rw [ofNode_array_eq_ok_iff, ofNode_array_eq_ok_iff]
  refine exists_congr fun types => and_congr_left fun _ => ⟨fun htypes => ?_, fun htypes => ?_⟩
  · exact forall₂_replace htypes fun ty => (h ty).1
  · exact forall₂_replace htypes fun ty => (h ty).2

end Descriptor

namespace Schema

open Descriptor

section Inlined

variable {name scope lead : String} {definition schema schema' : Json}

/-- A definition has the descriptor of a reference to it. -/
theorem StatesName.agree (h : StatesName name definition) (hwell : definition.wellFormed = true)
    (lead scope : String) :
    Agree lead (.string name) (qualified scope definition) := by
  have htext := h.textMember?_name hwell scope
  obtain ⟨kind, members, rfl, hmem, -, hkind, -⟩ := h.exists_members
  have hkind' := lookup_type_qualified scope (Json.wellFormed_object_iff.1 hwell).1 hkind
  rw [Json.textMember?_eq_some_iff] at htext
  obtain ⟨members', hmembers'⟩ := exists_qualified_eq_object scope members
  rw [hmembers', Json.member?] at htext hkind'
  intro ty
  rw [hmembers', ofNode_object_eq_ok_iff]
  have hdefinition : kind = "record" ∨ kind = "error" ∨ kind = "enum" := by simpa using hmem
  constructor
  · exact fun hty => ⟨kind, hkind', by rw [if_pos hdefinition]; exact ⟨_, htext, hty⟩⟩
  · rintro ⟨kind', hkind'', hty⟩
    obtain rfl := Json.string.inj (Option.some.inj (hkind'.symm.trans hkind''))
    rw [if_pos hdefinition] at hty
    obtain ⟨node, hnode, hty⟩ := hty
    rwa [← Option.some.inj (htext.symm.trans hnode)] at hty

/-- With full names an object or an array is no text. -/
theorem qualified_ne_string {x : Json} (scope : String)
    (hcompound : (∃ inside, x = .object inside) ∨ ∃ items, x = .array items) (text : String) :
    qualified scope x ≠ .string text := by
  rcases hcompound with ⟨inside, rfl⟩ | ⟨items, rfl⟩
  · obtain ⟨inside', hinside'⟩ := exists_qualified_eq_object scope inside
    simp [hinside']
  · simp [qualified]

/-- An object with one part has the descriptor that it had if the part has. -/
theorem Inlines.agree_inner {key : String} {members : List (String × Json)} {x y : Json}
    (h : Inlines name definition scope x y) (hkey : innerKey? members = some key)
    (hfound : members.lookup key = some x)
    (hagree : Agree lead (qualified scope x) (qualified scope y)) :
    Agree lead (qualified scope (.object members))
      (qualified scope (.object (Entries.insert key y members))) := by
  have hself := lookup_qualifiedMember_self key scope members
  rw [hfound, Option.map_some] at hself
  rw [qualified_of_innerKey? hkey, qualified_of_innerKey? (h.innerKey?_insert hkey hfound)]
  refine .object (fun kind => ?_) fun other _ => ?_
  · rw [lookup_qualifiedMember_insert]
    rcases innerKey?_eq_some_iff.1 hkey with ⟨_, -, hpart⟩ | ⟨inner, hinner, hcompound, rfl⟩
    · rw [if_neg (partKey?_ne_type hpart)]
    · -- Neither of the two schemas that stand under `type` is a text.
      obtain rfl := Option.some.inj (hinner.symm.trans hfound)
      have hcompound' := h.compound hcompound
      rw [if_pos rfl, hself, Option.some.injEq, Option.some.injEq]
      exact iff_of_false (qualified_ne_string scope hcompound kind)
        (qualified_ne_string scope hcompound' kind)
  · rw [lookup_qualifiedMember_insert]
    by_cases hne : other = key
    · subst hne
      exact .inr ⟨_, _, hself, if_pos rfl, hagree⟩
    · exact .inl (if_neg hne).symm

/-- **A node has the descriptor that it had** before a definition was put in the place of a
reference. -/
theorem Inlines.agree (h : Inlines name definition scope schema schema')
    (hname : StatesName name definition) (hdefinition : definition.wellFormed = true)
    (hwell : schema.wellFormed = true) (lead : String) :
    Agree lead (qualified scope schema) (qualified scope schema') := by
  induction h with
  | @here scope text hreference =>
      rw [qualified, hreference]
      exact hname.agree hdefinition lead scope
  | @item scope x y before after _ ih =>
      rw [Json.wellFormed_array_middle_iff] at hwell
      rw [qualified, qualified, qualifiedItems_eq_map, qualifiedItems_eq_map, List.map_append,
        List.map_append, List.map_cons, List.map_cons]
      exact (ih hwell.2.1).array _ _
  | inner hkey hfound hinside ih =>
      exact hinside.agree_inner hkey hfound (ih (Json.wellFormed_of_lookup hwell hfound))
  | @field scope kind members x y before fieldMembers after hkind hrecord hfields hfound
      hinside ih =>
      -- A record has the descriptor of its name, whatever its fields are.
      have hmember : ∀ key, key ≠ "fields" →
          (qualified scope (.object (retype before fieldMembers after y members))).member? key =
            (qualified scope (.object members)).member? key :=
        fun _ => member?_qualified_retype (Json.wellFormed_object_iff.1 hwell).1 hkind hrecord
      obtain ⟨ms, hms⟩ := exists_qualified_eq_object scope members
      obtain ⟨ns, hns⟩ :=
        exists_qualified_eq_object scope (retype before fieldMembers after y members)
      simp only [hms, hns, Json.member?] at hmember ⊢
      refine .object (fun kind => by rw [hmember "type" (by decide)]) fun key hkey =>
        .inl (hmember key ?_).symm
      rintro rfl
      simp at hkey

/-- A root that is no reference has the name that it had. -/
theorem Inlines.textMember?_name_qualified (h : Inlines name definition scope schema schema')
    (hwell : schema.wellFormed = true) (hroot : ∀ text, schema ≠ .string text) :
    (qualified scope schema').textMember? "name" =
      (qualified scope schema).textMember? "name" := by
  cases h with
  | here => exact absurd rfl (hroot _)
  | item => simp [qualified, Json.textMember?, Json.member?]
  | inner hkey hfound hinside =>
      have hne := innerKey?_ne_name hkey
      rw [qualified_of_innerKey? hkey,
        qualified_of_innerKey? (hinside.innerKey?_insert hkey hfound), Json.textMember?,
        Json.textMember?, Json.member?, Json.member?, lookup_qualifiedMember_insert, if_neg hne]
  | field _ _ _ hkind hrecord hfields hfound hinside =>
      rw [Json.textMember?, Json.textMember?,
        member?_qualified_retype (Json.wellFormed_object_iff.1 hwell).1 hkind hrecord
          (by decide)]

/-! ## Definitions -/

/-- A schema is described as another with the same members if its fields are described as the
fields of the other. -/
theorem ofSchema_of_members {x y : Json} {type : NamedType}
    (hmember : ∀ key, key ≠ "fields" → y.member? key = x.member? key)
    (hfields : ∃ nodes others, x.member? "fields" = some (.array nodes) ∧
      y.member? "fields" = some (.array others) ∧ ∀ fields,
        List.Forall₂ (fun node field => Field.ofSchema lead node = .ok field) nodes fields →
        List.Forall₂ (fun node field => Field.ofSchema lead node = .ok field) others fields)
    (h : NamedType.ofSchema lead x = .ok type) : NamedType.ofSchema lead y = .ok type := by
  obtain ⟨nodes, others, hnodes, hothers, hdescribed⟩ := hfields
  rw [NamedType.ofSchema_eq_ok_iff] at h ⊢
  simp only [Json.textMember?, hmember "name" (by decide), hmember "type" (by decide),
    hmember "doc" (by decide), hmember "symbols" (by decide), hothers, hnodes,
    Option.some.injEq, Json.array.injEq] at h ⊢
  obtain ⟨fullName, hname, ⟨kind, _, fields, hkind, hrecord, rfl, hfields, htype⟩ | henum⟩ := h
  · exact ⟨fullName, hname,
      .inl ⟨kind, others, fields, hkind, hrecord, rfl, hdescribed fields hfields, htype⟩⟩
  · exact ⟨fullName, hname, .inr henum⟩

/-- A field has the description that it had if its type has the descriptor. -/
theorem ofSchema_field_insert {fieldMembers : List (String × Json)} {x y : Json}
    (hfound : fieldMembers.lookup "type" = some x)
    (hagree : Agree lead (qualified scope x) (qualified scope y)) (field : Field) :
    Field.ofSchema lead
      (.object (qualifiedMember "type" scope (Entries.insert "type" y fieldMembers))) =
        .ok field ↔
      Field.ofSchema lead (.object (qualifiedMember "type" scope fieldMembers)) =
        .ok field := by
  have hself := lookup_qualifiedMember_self "type" scope fieldMembers
  have hkeys : ("name" : String) ≠ "type" ∧ ("default" : String) ≠ "type" ∧
      ("doc" : String) ≠ "type" := by decide
  rw [hfound, Option.map_some] at hself
  rw [Field.ofSchema_eq_ok_iff, Field.ofSchema_eq_ok_iff]
  simp only [Json.textMember?, Json.member?, lookup_qualifiedMember_insert, if_neg hkeys.1,
    if_neg hkeys.2.1, if_neg hkeys.2.2, if_true, hself, Option.some.injEq]
  constructor
  · rintro ⟨name, _, ty, hname, rfl, hty, rfl⟩
    exact ⟨name, _, ty, hname, rfl, (hagree ty).2 hty, rfl⟩
  · rintro ⟨name, _, ty, hname, rfl, hty, rfl⟩
    exact ⟨name, _, ty, hname, rfl, (hagree ty).1 hty, rfl⟩

/-- **A respelled definition is described as it was.** -/
theorem Respelled.ofSchema_iff {entry other : String × Json}
    (h : Respelled name definition entry other) (hname : StatesName name definition)
    (hdefinition : definition.wellFormed = true) (lead : String) (type : NamedType) :
    NamedType.ofSchema lead entry.2 = .ok type ↔
      NamedType.ofSchema lead other.2 = .ok type := by
  cases h with
  | refl => exact Iff.rfl
  | @inside scope full schema schema' hinlines hwell hown =>
      cases hinlines with
      | here => simp [ownDefinition] at hown
      | item => simp [ownDefinition] at hown
      | inner hkey => simp [ownDefinition_of_innerKey? hkey] at hown
      | @field _ kind members x y before fieldMembers after hkind hrecord hfields hfound
          hinside =>
          have hnodup := (Json.wellFormed_object_iff.1 hwell).1
          have hfieldWell : (Json.object fieldMembers).wellFormed = true :=
            Json.wellFormed_array_iff.1 (Json.wellFormed_of_lookup hwell hfields) _ (by simp)
          have hagree :=
            hinside.agree hname hdefinition (Json.wellFormed_of_lookup hfieldWell hfound) lead
          have hfield := ofSchema_field_insert hfound hagree
          -- Only the fields differ, and of these only one.
          have hmember : ∀ key, key ≠ "fields" →
              (qualified scope (.object (retype before fieldMembers after y members))).member?
                  key =
                (qualified scope (.object members)).member? key :=
            fun _ => member?_qualified_retype hnodup hkind hrecord
          have hnodes := member?_fields_qualified scope hnodup hkind hrecord hfields
          rw [qualifiedFields_eq_map, List.map_append, List.map_cons, qualifiedField] at hnodes
          constructor
          · refine ofSchema_of_members hmember
              ⟨_, _, hnodes, member?_fields_qualified_retype hnodup hkind hrecord,
                fun fields hfields => ?_⟩
            exact forall₂_replace hfields fun field => (hfield field).2
          · refine ofSchema_of_members (fun key hne => (hmember key hne).symm)
              ⟨_, _, member?_fields_qualified_retype hnodup hkind hrecord, hnodes,
                fun fields hfields => ?_⟩
            exact forall₂_replace hfields fun field => (hfield field).1

end Inlined

end Schema

end AvroBindings
