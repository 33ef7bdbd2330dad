import AvroBindings.Proofs.Descriptor.References
import AvroBindings.Proofs.Name.Stripped

/-!
# Normal forms of descriptors

Which types are the descriptors of schema nodes: those in which a choice between null and one
other type is always an optional, and a union always a choice.

## Main Definitions

* `Descriptor.Normal` — the normal form, at every depth of a type.
* `Descriptor.toNode` — a node for a type.

## Main Statements

* `Descriptor.induction_ofNode` — induction on how a descriptor comes about.
* `Descriptor.ofNode_toNode` — a normal type is the descriptor of its node.
* `Descriptor.range_ofNode` — the descriptors of nodes are exactly the normal types.

## Design Notes

**Members come first.**  Whether a union is an optional is decided on the descriptors of its
members and not on their spellings: a null that is spelled as an object counts, and so does a
union of null alone.  A union inside a union stays one.

**References.**  A node refers only to names with a dot, but the prefix that is taken off a name
may take the dot with it.  So the references are told only for nodes whose names are left as
they are.
-/

namespace AvroBindings

namespace Primitive

/-- A primitive type of Avro of this kind. -/
def avroName : Primitive → String
  | .string => "string"
  | .integer => "long"
  | .boolean => "boolean"
  | .float => "double"
  | .null => "null"

theorem ofAvroName?_avroName (kind : Primitive) : ofAvroName? kind.avroName = some kind := by
  cases kind <;> rfl

/-- No primitive type has a dot in its name. -/
theorem ofAvroName?_of_isDotted {name : String} (h : Name.isDotted name = true) :
    ofAvroName? name = none := by
  unfold ofAvroName?
  split <;> simp_all +decide

end Primitive

namespace Descriptor

/-! ## Normal forms -/

/-- **A type is in normal form**: at every depth, no optional wraps the null primitive, every
union has at least two members, and of the members of a union of two both are the null primitive
or neither is. -/
inductive Normal : Descriptor → Prop
  | primitive (kind : Primitive) : Normal (.primitive kind)
  | optional {inner : Descriptor} (notNull : inner ≠ .primitive .null) (h : Normal inner) :
      Normal (.optional inner)
  | union {alternatives : List Descriptor} (several : 2 ≤ alternatives.length)
      (pair : ∀ a b, alternatives = [a, b] → (a = .primitive .null ↔ b = .primitive .null))
      (h : ∀ ty ∈ alternatives, Normal ty) : Normal (.union alternatives)
  | list {item : Descriptor} (h : Normal item) : Normal (.list item)
  | map {value : Descriptor} (h : Normal value) : Normal (.map value)
  | named (name : String) : Normal (.named name)

theorem isNull_iff {ty : Descriptor} : ty.isNull = true ↔ ty = .primitive .null := by
  unfold isNull
  split <;> simp_all

/-- A union stays one if it has several members, and not null and one other type. -/
theorem ofMembers?_eq_union {alternatives : List Descriptor} (several : 2 ≤ alternatives.length)
    (pair : ∀ a b, alternatives = [a, b] → (a = .primitive .null ↔ b = .primitive .null)) :
    ofMembers? alternatives = some (.union alternatives) := by
  unfold ofMembers?
  split
  next => simp at several
  next => simp at several
  next a b =>
    have hsame := pair a b rfl
    rw [← isNull_iff, ← isNull_iff] at hsame
    cases ha : a.isNull <;> cases hb : b.isNull <;> simp_all
  next => rfl

/-- The union of null and a type is the optional of that type. -/
theorem ofMembers?_null {inner : Descriptor} (notNull : inner ≠ .primitive .null) :
    ofMembers? [.primitive .null, inner] = some (.optional inner) := by
  simp [ofMembers?, isNull]

/-- **The union of normal types is normal**, whatever becomes of it. -/
theorem normal_ofMembers? {types : List Descriptor} {ty : Descriptor}
    (htypes : ∀ member ∈ types, Normal member) (h : ofMembers? types = some ty) :
    Normal ty := by
  unfold ofMembers? at h
  split at h
  next => contradiction
  next only =>
    obtain rfl := Option.some.inj h
    exact htypes only (List.mem_singleton_self _)
  next a b =>
    have hnot : ∀ {first second : Descriptor}, (first.isNull && !second.isNull) = true →
        second ≠ .primitive .null := by
      intro first second hfirst hsecond
      rw [isNull_iff.2 hsecond, Bool.not_true, Bool.and_false] at hfirst
      contradiction
    split at h
    next hfirst =>
      obtain rfl := Option.some.inj h
      exact .optional (hnot hfirst) (htypes b (by simp))
    next hfirst =>
      split at h
      next hsecond =>
        obtain rfl := Option.some.inj h
        exact .optional (hnot hsecond) (htypes a (by simp))
      next hsecond =>
        obtain rfl := Option.some.inj h
        refine .union (by simp) ?_ htypes
        intro a' b' heq
        obtain ⟨rfl, rfl⟩ : a = a' ∧ b = b' := by simpa using heq
        rw [← isNull_iff, ← isNull_iff]
        cases ha : a.isNull <;> cases hb : b.isNull <;> simp_all
  next hnone hone htwo =>
    obtain rfl := Option.some.inj h
    refine .union ?_ (fun a b heq => absurd heq (htwo a b)) htypes
    match types, hnone, hone with
    | [], hnone, _ => exact absurd rfl hnone
    | [only], _, hone => exact absurd rfl (hone only)
    | _ :: _ :: _, _, _ => simp

/-! ## Descriptors of nodes -/

/-- **Induction on how a descriptor comes about**: from a name, from a primitive type, from
those of the members of a union, or from that of the part of a container. -/
theorem induction_ofNode {lead : String} {motive : Descriptor → Prop}
    (reference : ∀ name ty, ofReference lead name = .ok ty → motive ty)
    (primitive : ∀ kind, motive (.primitive kind))
    (members : ∀ types ty, (∀ member ∈ types, motive member) → ofMembers? types = some ty →
      motive ty)
    (list : ∀ item, motive item → motive (.list item))
    (map : ∀ value, motive value → motive (.map value)) {node : Json} {ty : Descriptor}
    (h : ofNode lead node = .ok ty) : motive ty := by
  induction node using Json.induction generalizing ty with
  | string name =>
      rw [ofNode] at h
      exact reference name ty h
  | array nodes ih =>
      obtain ⟨types, htypes, hty⟩ := ofNode_array_eq_ok_iff.1 h
      refine members types ty (fun member hmember => ?_) hty
      obtain ⟨node, hnode, hdescribed⟩ := exists_left_of_forall₂ htypes hmember
      exact ih node hnode hdescribed
  | object nodes ih =>
      have hpart : ∀ {key : String} {node : Json} {part : Descriptor},
          nodes.lookup key = some node →
          ofNode lead node = .ok part → motive part :=
        fun hnode hdescribed => ih _ (Entries.mem_of_lookup hnode) hdescribed
      obtain ⟨kind, -, h⟩ := ofNode_object_eq_ok_iff.1 h
      split at h
      next =>
        obtain ⟨node, hnode, hdescribed⟩ := h
        exact hpart hnode hdescribed
      next =>
        split at h
        next =>
          obtain ⟨node, value, hnode, hdescribed, rfl⟩ := h
          exact map value (hpart hnode hdescribed)
        next =>
          split at h
          next =>
            obtain ⟨node, item, hnode, hdescribed, rfl⟩ := h
            exact list item (hpart hnode hdescribed)
          next =>
            obtain ⟨kind, -, rfl⟩ := h
            exact primitive kind
  | _ => simp [ofNode] at h

/-- **The descriptor of a node is in normal form.** -/
theorem normal_of_ofNode {lead : String} {node : Json} {ty : Descriptor}
    (h : ofNode lead node = .ok ty) :
    Normal ty := by
  refine induction_ofNode ?_ .primitive (fun types ty => normal_ofMembers?) (fun _ => .list)
    (fun _ => .map) h
  intro name ty hty
  unfold ofReference at hty
  split at hty
  next kind _ =>
    obtain rfl := Except.ok.inj hty
    exact .primitive kind
  next =>
    split at hty
    next =>
      obtain rfl := Except.ok.inj hty
      exact .named _
    next => contradiction

/-- What a descriptor refers to has a dot, before the leading text is taken off. -/
theorem exists_isDotted_of_reference {lead : String} {node : Json} {ty : Descriptor}
    (h : ofNode lead node = .ok ty) :
    ∀ name ∈ ty.references, ∃ full,
      Name.isDotted full = true ∧ name = Name.stripPrefix lead full := by
  refine induction_ofNode (motive := fun ty => ∀ name ∈ ty.references, ∃ full,
    Name.isDotted full = true ∧ name = Name.stripPrefix lead full) ?reference ?primitive
      ?members ?list ?map h
  case reference => exact fun full ty hty name hname =>
    ⟨full, mem_references_ofReference hty hname⟩
  case primitive => simp [references]
  case members =>
    intro types ty ih hty name hname
    obtain ⟨member, hmember, hname⟩ := mem_references_ofMembers? hty hname
    exact ih member hmember name hname
  case list => exact fun item ih => ih
  case map => exact fun value ih => ih

/-! ## Nodes of descriptors -/

mutual

/-- A node for a type. -/
def toNode : Descriptor → Json
  | .primitive kind => .string kind.avroName
  | .optional inner => .array [.string "null", inner.toNode]
  | .union alternatives => .array (toNodes alternatives)
  | .list item => .object [("type", .string "array"), ("items", item.toNode)]
  | .map value => .object [("type", .string "map"), ("values", value.toNode)]
  | .named name => .string name

/-- Nodes for several types. -/
def toNodes : List Descriptor → List Json
  | [] => []
  | ty :: rest => ty.toNode :: toNodes rest

end

theorem toNodes_eq_map (types : List Descriptor) : toNodes types = types.map toNode := by
  induction types with
  | nil => rfl
  | cons ty rest ih => rw [toNodes, ih, List.map_cons]

theorem wellFormed_toNode (ty : Descriptor) : ty.toNode.wellFormed = true := by
  induction ty using Descriptor.induction with
  | primitive kind => rfl
  | optional inner ih =>
      rw [toNode, Json.wellFormed_array_iff]
      simp [ih, Json.wellFormed]
  | union alternatives ih =>
      rw [toNode, toNodes_eq_map, Json.wellFormed_array_iff, List.forall_mem_map]
      exact ih
  | list item ih =>
      rw [toNode, Json.wellFormed_object_iff]
      exact ⟨by simp, by simp [ih, Json.wellFormed]⟩
  | map value ih =>
      rw [toNode, Json.wellFormed_object_iff]
      exact ⟨by simp, by simp [ih, Json.wellFormed]⟩
  | named name => rfl

/-- **A normal type is the descriptor of its node**, if the names that it refers to have a
dot. -/
theorem ofNode_toNode {ty : Descriptor} (h : Normal ty)
    (hdotted : ∀ name ∈ ty.references, Name.isDotted name = true) :
    ofNode "" ty.toNode = .ok ty := by
  induction h with
  | primitive kind => rw [toNode, ofNode, ofReference, Primitive.ofAvroName?_avroName]
  | optional notNull _ ih =>
      rw [toNode]
      exact ofNode_array_eq_ok_iff.2 ⟨_, .cons rfl (.cons (ih hdotted) .nil),
        ofMembers?_null notNull⟩
  | union several pair _ ih =>
      rw [toNode, toNodes_eq_map]
      refine ofNode_array_eq_ok_iff.2 ⟨_, ?_, ofMembers?_eq_union several pair⟩
      rw [List.forall₂_map_left_iff, List.forall₂_same]
      intro ty hty
      exact ih ty hty fun name hname => hdotted name (mem_referencesOfAll.2 ⟨ty, hty, hname⟩)
  | @list item _ ih =>
      rw [toNode]
      exact ofNode_object_eq_ok_iff.2 ⟨"array", rfl, item.toNode, item, rfl, ih hdotted, rfl⟩
  | @map value _ ih =>
      rw [toNode]
      exact ofNode_object_eq_ok_iff.2 ⟨"map", rfl, value.toNode, value, rfl, ih hdotted, rfl⟩
  | named name =>
      have hname : Name.isDotted name = true := hdotted name (List.mem_singleton_self _)
      rw [toNode, ofNode, ofReference, Primitive.ofAvroName?_of_isDotted hname]
      simp [hname, Name.stripPrefix_empty]

/-- **The descriptors of nodes are exactly the types in normal form.**  Whatever leading text is
taken off its names, the descriptor of a node is in normal form.  A type is the descriptor of a
node whose names are left as they are exactly if it is in normal form and all names that it
refers to have a dot. -/
theorem range_ofNode (ty : Descriptor) :
    (∀ lead node, ofNode lead node = .ok ty → Normal ty) ∧
      ((∃ node : Json, node.wellFormed = true ∧ ofNode "" node = .ok ty) ↔
        Normal ty ∧ ∀ name ∈ ty.references, Name.isDotted name = true) := by
  refine ⟨fun _ _ => normal_of_ofNode, ?_, ?_⟩
  · rintro ⟨node, -, hty⟩
    refine ⟨normal_of_ofNode hty, fun name hname => ?_⟩
    obtain ⟨full, hfull, rfl⟩ := exists_isDotted_of_reference hty name hname
    rwa [Name.stripPrefix_empty]
  · rintro ⟨hnormal, hdotted⟩
    exact ⟨ty.toNode, wellFormed_toNode ty, ofNode_toNode hnormal hdotted⟩

end Descriptor

end AvroBindings
