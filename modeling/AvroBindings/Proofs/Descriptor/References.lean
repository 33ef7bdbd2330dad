import AvroBindings.Descriptor.OfNode
import AvroBindings.Proofs.Convert.Typing
import AvroBindings.Proofs.Results
import AvroBindings.Proofs.Schema.Nested

/-!
# References of descriptors

The names that a type refers to, and where in a schema they come from: a reference of a
descriptor stands at a type position of the node that it describes, as a text or as a
definition.

## Main Definitions

* `Descriptor.references` — the names that a type refers to.
* `Schema.StandsFor` — a schema is a name, or defines it.

## Main Statements

* `Descriptor.ofNode_object_eq_ok_iff` — which objects have a descriptor.
* `Descriptor.exists_position_of_reference` — where a reference comes from.

## Design Notes

A descriptor names a nested definition and says nothing of what is in it.  So the references of
a descriptor are those down to the first definition on every way.
-/

namespace AvroBindings

namespace Descriptor

/-! ## References -/

mutual

/-- The names that a type refers to. -/
def references : Descriptor → List String
  | .primitive _ => []
  | .optional inner => inner.references
  | .union alternatives => referencesOfAll alternatives
  | .list item => item.references
  | .map value => value.references
  | .named name => [name]

/-- The names that several types refer to. -/
def referencesOfAll : List Descriptor → List String
  | [] => []
  | ty :: rest => ty.references ++ referencesOfAll rest

end

theorem mem_referencesOfAll {name : String} {types : List Descriptor} :
    name ∈ referencesOfAll types ↔ ∃ ty ∈ types, name ∈ ty.references := by
  induction types with
  | nil => simp [referencesOfAll]
  | cons ty rest ih => simp [referencesOfAll, ih]

/-- A union refers to what its members refer to. -/
theorem mem_references_ofMembers? {name : String} {types : List Descriptor} {ty : Descriptor}
    (h : ofMembers? types = some ty) (hname : name ∈ ty.references) :
    ∃ member ∈ types, name ∈ member.references := by
  unfold ofMembers? at h
  split at h
  next => contradiction
  next only =>
    obtain rfl := Option.some.inj h
    exact ⟨only, List.mem_singleton_self _, hname⟩
  next a b =>
    split at h
    · obtain rfl := Option.some.inj h
      exact ⟨b, by simp, hname⟩
    · split at h
      · obtain rfl := Option.some.inj h
        exact ⟨a, by simp, hname⟩
      · obtain rfl := Option.some.inj h
        exact mem_referencesOfAll.1 hname
  next =>
    obtain rfl := Option.some.inj h
    exact mem_referencesOfAll.1 hname

/-! ## Nodes -/

/-- A bare name refers to nothing but itself, without the leading text, and only if it has a
dot. -/
theorem mem_references_ofReference {lead name other : String} {ty : Descriptor}
    (h : ofReference lead name = .ok ty) (hother : other ∈ ty.references) :
    Name.isDotted name = true ∧ other = Name.stripPrefix lead name := by
  unfold ofReference at h
  split at h
  next =>
    obtain rfl := Except.ok.inj h
    simp [references] at hother
  next =>
    split at h
    next hdotted =>
      obtain rfl := Except.ok.inj h
      exact ⟨hdotted, List.mem_singleton.1 hother⟩
    next => contradiction

theorem ofNodes_eq_mapM (lead : String) (nodes : List Json) :
    ofNodes lead nodes = nodes.mapM (ofNode lead) := by
  induction nodes with
  | nil =>
      rw [ofNodes, List.mapM_nil]
  | cons node nodes ih => rw [ofNodes, List.mapM_cons, ih]

/-- A member is described as the node that is found under its key. -/
theorem ofMember_eq_ok_iff {lead key : String} {refusal : SchemaError}
    {members : List (String × Json)} {ty : Descriptor} :
    ofMember lead refusal key members = .ok ty ↔
      ∃ node, members.lookup key = some node ∧ ofNode lead node = .ok ty := by
  induction members with
  | nil => simp [ofMember]
  | cons member members ih =>
      obtain ⟨k, v⟩ := member
      rw [ofMember]
      by_cases hk : k = key
      · subst hk
        simp
      · rw [if_neg hk, List.lookup_cons, beq_eq_false_iff_ne.2 (Ne.symm hk)]
        exact ih

/-- An array has a descriptor exactly if its items have and there are any. -/
theorem ofNode_array_eq_ok_iff {lead : String} {nodes : List Json} {ty : Descriptor} :
    ofNode lead (.array nodes) = .ok ty ↔
      ∃ types, List.Forall₂ (fun node ty => ofNode lead node = .ok ty) nodes types ∧
      ofMembers? types = some ty := by
  rw [ofNode, bind_eq_ok_iff, ofNodes_eq_mapM]
  refine exists_congr fun types => and_congr mapM_eq_ok_iff ?_
  cases ofMembers? types with
  | none => simp [throw, throwThe, MonadExceptOf.throw]
  | some ty' => simp [pure, Except.pure]

/-- **Which objects have a descriptor**, and which: a definition has that of its name, a
container one of its part, and every other kind is a primitive type. -/
theorem ofNode_object_eq_ok_iff {lead : String} {members : List (String × Json)}
    {ty : Descriptor} :
    ofNode lead (.object members) = .ok ty ↔
      ∃ kind, members.lookup "type" = some (.string kind) ∧
        if kind = "record" ∨ kind = "error" ∨ kind = "enum" then
          ∃ node, members.lookup "name" = some node ∧ ofNode lead node = .ok ty
        else if kind = "map" then
          ∃ node value, members.lookup "values" = some node ∧ ofNode lead node = .ok value ∧
          ty = .map value
        else if kind = "array" then
          ∃ node item, members.lookup "items" = some node ∧ ofNode lead node = .ok item ∧
          ty = .list item
        else ∃ primitive, Primitive.ofAvroName? kind = some primitive ∧
        ty = .primitive primitive := by
  rw [ofNode]
  cases hkind : (Json.object members).textMember? "type" with
  | none =>
      refine iff_of_false (by simp) ?_
      rintro ⟨kind, hlookup, -⟩
      have hmember : (Json.object members).member? "type" = some (.string kind) := hlookup
      rw [Json.textMember?_eq_some_iff.2 hmember] at hkind
      contradiction
  | some kind =>
      have hlookup : members.lookup "type" = some (.string kind) :=
        Json.textMember?_eq_some_iff.1 hkind
      have hpart : ∀ (key : String) (refusal : SchemaError) (build : Descriptor → Descriptor),
          (do return build (← ofMember lead refusal key members) :
            Except SchemaError Descriptor) = .ok ty ↔
            ∃ node part, members.lookup key = some node ∧ ofNode lead node = .ok part ∧
            ty = build part := by
        intro key refusal build
        rw [bind_eq_ok_iff]
        simp only [ofMember_eq_ok_iff, pure, Except.pure, Except.ok.injEq]
        constructor
        · rintro ⟨part, ⟨node, hnode, hpart⟩, rfl⟩
          exact ⟨node, part, hnode, hpart, rfl⟩
        · rintro ⟨node, part, hnode, hpart, rfl⟩
          exact ⟨part, ⟨node, hnode, hpart⟩, rfl⟩
      simp only [hlookup, Option.some.injEq, Json.string.injEq, exists_eq_left',
        Bool.or_eq_true, decide_eq_true_eq, or_assoc]
      split
      · exact ofMember_eq_ok_iff
      · split
        · exact hpart _ _ _
        · split
          · exact hpart _ _ _
          · cases Primitive.ofAvroName? kind with
            | none => simp
            | some primitive => simp [eq_comm]

/-- An object has the descriptor of another if it is of the same kind and has a member of the
same descriptor for each member that a descriptor can be made of. -/
theorem ofNode_object_of_members {lead : String} {members others : List (String × Json)}
    {ty : Descriptor}
    (hkind : ∀ kind, members.lookup "type" = some (.string kind) →
      others.lookup "type" = some (.string kind))
    (hpart : ∀ key ∈ ["name", "values", "items"], ∀ node part, members.lookup key = some node →
      ofNode lead node = .ok part → ∃ other, others.lookup key = some other ∧
      ofNode lead other = .ok part)
    (h : ofNode lead (.object members) = .ok ty) : ofNode lead (.object others) = .ok ty := by
  obtain ⟨kind, hmembers, h⟩ := ofNode_object_eq_ok_iff.1 h
  refine ofNode_object_eq_ok_iff.2 ⟨kind, hkind kind hmembers, ?_⟩
  split at h
  next hdefinition =>
    rw [if_pos hdefinition]
    obtain ⟨node, hnode, hty⟩ := h
    exact hpart "name" (by simp) node ty hnode hty
  next hdefinition =>
    rw [if_neg hdefinition]
    split at h
    next hmap =>
      rw [if_pos hmap]
      obtain ⟨node, value, hnode, hvalue, rfl⟩ := h
      obtain ⟨other, hother, hvalue'⟩ := hpart "values" (by simp) node value hnode hvalue
      exact ⟨other, value, hother, hvalue', rfl⟩
    next hmap =>
      rw [if_neg hmap]
      split at h
      next harray =>
        rw [if_pos harray]
        obtain ⟨node, item, hnode, hitem, rfl⟩ := h
        obtain ⟨other, hother, hitem'⟩ := hpart "items" (by simp) node item hnode hitem
        exact ⟨other, item, hother, hitem', rfl⟩
      next harray =>
        rw [if_neg harray]
        exact h

end Descriptor

/-! ## Where references come from -/

namespace Schema

/-- A schema stands for a name: it is that text, or a definition of that name. -/
inductive StandsFor : Json → String → Prop
  | reference (name : String) : StandsFor (.string name) name
  | definition {schema : Json} {name : String} (kind : IsDefinition schema)
      (named : schema.textMember? "name" = some name) : StandsFor schema name

end Schema

namespace Descriptor

/-- **Where a reference comes from**: what the descriptor of a node refers to stands at a type
position of the node, with the leading text and with a dot.  The definitions at the type
positions must have texts as their names. -/
theorem exists_position_of_reference {lead scope : String} {node : Json} {ty : Descriptor}
    {name : String}
    (hnamed : ∀ scope' inner, Schema.TypePosition scope node scope' inner →
      Schema.IsDefinition inner → ∃ full, inner.textMember? "name" = some full)
    (h : ofNode lead node = .ok ty) (hname : name ∈ ty.references) :
    ∃ scope' inner full, Schema.TypePosition scope node scope' inner ∧
      Schema.StandsFor inner full ∧
      Name.isDotted full = true ∧ name = Name.stripPrefix lead full := by
  induction scope, node using Schema.induction generalizing ty with
  | step scope node ih =>
      have hpart : ∀ part ∈ Schema.parts scope node, ∀ ty, ofNode lead part.2 = .ok ty →
          name ∈ ty.references →
          ∃ scope' inner full, Schema.TypePosition scope node scope' inner ∧
            Schema.StandsFor inner full ∧
            Name.isDotted full = true ∧ name = Name.stripPrefix lead full := by
        intro part hpart ty hty hname
        obtain ⟨scope', inner, full, hposition, hrest⟩ :=
          ih part hpart (fun scope' inner hposition =>
            hnamed scope' inner (.inside hpart hposition)) hty hname
        exact ⟨scope', inner, full, .inside hpart hposition, hrest⟩
      cases node with
      | string full =>
          rw [ofNode] at h
          exact ⟨scope, _, full, .here _ _, .reference full, mem_references_ofReference h hname⟩
      | array nodes =>
          obtain ⟨types, htypes, hty⟩ := ofNode_array_eq_ok_iff.1 h
          obtain ⟨member, hmember, hname⟩ := mem_references_ofMembers? hty hname
          obtain ⟨node, hnode, hdescribed⟩ := exists_left_of_forall₂ htypes hmember
          exact hpart (scope, node) (List.mem_map_of_mem hnode) member hdescribed hname
      | object members =>
          obtain ⟨kind, hkind, h⟩ := ofNode_object_eq_ok_iff.1 h
          split at h
          next hdefinition =>
            -- The name of a definition is a text, so what it refers to is the definition
            -- itself.
            obtain ⟨node, hnode, hdescribed⟩ := h
            have hdefines : Schema.IsDefinition (.object members) := by
              refine ⟨kind, Json.textMember?_eq_some_iff.2 hkind, ?_⟩
              rcases hdefinition with rfl | rfl | rfl <;> decide
            obtain ⟨full, hfull⟩ := hnamed scope _ (.here _ _) hdefines
            have hname' := Json.textMember?_eq_some_iff.1 hfull
            obtain rfl : node = .string full := Option.some.inj (hnode.symm.trans hname')
            rw [ofNode] at hdescribed
            exact ⟨scope, _, full, .here _ _, .definition hdefines hfull,
              mem_references_ofReference hdescribed hname⟩
          next =>
            split at h
            next hmap =>
              subst hmap
              obtain ⟨node, value, hnode, hdescribed, rfl⟩ := h
              exact hpart (scope, node)
                (by simp [Schema.parts, hkind, Schema.isRecordKind, Schema.partKey?, hnode])
                value hdescribed hname
            next =>
              split at h
              next harray =>
                subst harray
                obtain ⟨node, item, hnode, hdescribed, rfl⟩ := h
                exact hpart (scope, node)
                  (by simp [Schema.parts, hkind, Schema.isRecordKind, Schema.partKey?, hnode])
                  item hdescribed hname
              next =>
                obtain ⟨primitive, -, rfl⟩ := h
                simp [references] at hname
      | _ => simp [ofNode] at h

end Descriptor

end AvroBindings
