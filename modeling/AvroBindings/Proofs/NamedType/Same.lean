import AvroBindings.Proofs.NamedType.Described
import AvroBindings.Proofs.Schema.Nested

/-!
# Equal types

Equal schemas are described alike.  Two trees are equal if they differ in the order of members
only, so all that can differ in the descriptions is the order of members in a default.

## Main Definitions

* `Field.Same`, `NamedType.Same` — equality of fields and of named types, the order of members
  in defaults aside.

## Main Statements

* `Descriptor.ofNode_of_same` — equal nodes have one descriptor.
* `NamedType.exists_same_of_same` — equal schemas are described by equal types.
-/

namespace AvroBindings

/-- **Equal nodes have one descriptor.** -/
theorem Descriptor.ofNode_of_same {lead : String} {x y : Json} (hx : x.wellFormed = true)
    (hy : y.wellFormed = true) (h : x.same y = true) {ty : Descriptor}
    (hty : ofNode lead x = .ok ty) : ofNode lead y = .ok ty := by
  induction x using Json.induction generalizing y ty with
  | string text =>
      cases y with
      | string text' =>
          obtain rfl : text = text' := by simpa [Json.same] using h
          exact hty
      | _ => simp [Json.same] at h
  | array xs ih =>
      cases y with
      | array ys =>
          rw [Json.wellFormed_array_iff] at hx hy
          rw [Json.same, Json.sameItems_iff] at h
          obtain ⟨types, htypes, hmembers⟩ := ofNode_array_eq_ok_iff.1 hty
          have htypes' : List.Forall₂ (fun node ty => ofNode lead node = .ok ty) ys types :=
            forall₂_of_forall₂ (fun x hxmem y hymem _ hsame hty =>
              ih x hxmem (hx x hxmem) (hy y hymem) hsame hty)
              h htypes
          exact ofNode_array_eq_ok_iff.2 ⟨types, htypes', hmembers⟩
      | _ => simp [Json.same] at h
  | object ms ih =>
      cases y with
      | object ns =>
          refine ofNode_object_of_members (fun kind hkind => ?_)
            (fun key _ node part hnode hpart => ?_) hty
          · have htext : (Json.object ms).textMember? "type" = some kind :=
              Json.textMember?_eq_some_iff.2 hkind
            rw [Json.textMember?_of_same hx hy h] at htext
            exact Json.textMember?_eq_some_iff.1 htext
          · have hmember : (Json.object ms).member? key = some node := hnode
            obtain ⟨other, hother, hsame⟩ := Json.exists_member?_of_same hx hy h hmember
            exact ⟨other, hother,
              ih _ (Entries.mem_of_lookup hnode) (Json.wellFormed_of_lookup hx hnode)
                (Json.wellFormed_of_lookup hy hother) hsame hpart⟩
      | _ => simp [Json.same] at h
  | _ => simp [ofNode] at hty

/-! ## Fields and named types -/

/-- **Two fields are equal**, the order of members in the default aside. -/
structure Field.Same (field other : Field) : Prop where
  name : field.name = other.name
  type : field.type = other.type
  default : Option.Rel (fun v w => v.same w = true) field.default other.default
  doc : field.doc = other.doc

/-- **Two named types are equal**, the order of members in defaults aside. -/
inductive NamedType.Same : NamedType → NamedType → Prop
  | record {name : String} {fields others : List Field} {doc : Option String}
      (same : List.Forall₂ Field.Same fields others) :
      Same (.record ⟨name, fields, doc⟩) (.record ⟨name, others, doc⟩)
  | enum (enum : Enumeration) : Same (.enum enum) (.enum enum)

theorem NamedType.same_enum_iff {enum other : Enumeration} :
    NamedType.Same (.enum enum) (.enum other) ↔ enum = other := by
  constructor
  · intro h
    cases h
    rfl
  · rintro rfl
    exact .enum enum

/-- Equal nodes define equal fields. -/
theorem Field.exists_same_of_same {lead : String} {x y : Json} (hx : x.wellFormed = true)
    (hy : y.wellFormed = true) (h : x.same y = true) {field : Field}
    (hfield : ofSchema lead x = .ok field) :
    ∃ other, ofSchema lead y = .ok other ∧ field.Same other := by
  obtain ⟨name, type, ty, hname, htype, hty, rfl⟩ := ofSchema_eq_ok_iff.1 hfield
  obtain ⟨type', htype', hsame⟩ := Json.exists_member?_of_same hx hy h htype
  have hwell := Json.wellFormed_of_member? hx htype
  have hty' := Descriptor.ofNode_of_same hwell (Json.wellFormed_of_member? hy htype') hsame hty
  rw [Json.textMember?_of_same hx hy h] at hname
  refine ⟨_, ofSchema_eq_ok_iff.2 ⟨name, type', ty, hname, htype', hty', rfl⟩, rfl, rfl, ?_, ?_⟩
  · exact Json.member?_of_same hx hy h "default"
  · exact Json.textMember?_of_same hx hy h "doc"

/-- An array among the members of a tree has one of equal items in every equal tree. -/
theorem Json.exists_items_of_same {x y : Json} {key : String} {nodes : List Json}
    (hx : x.wellFormed = true) (hy : y.wellFormed = true) (h : x.same y = true)
    (hnodes : x.member? key = some (.array nodes)) :
    ∃ others, y.member? key = some (.array others) ∧
      List.Forall₂ (fun x y => x.same y = true) nodes others ∧
      (∀ node ∈ nodes, node.wellFormed = true) ∧ ∀ node ∈ others, node.wellFormed = true := by
  obtain ⟨other, hother, hsame⟩ := exists_member?_of_same hx hy h hnodes
  have hwell := wellFormed_of_member? hx hnodes
  have hwell' := wellFormed_of_member? hy hother
  cases other with
  | array others =>
      rw [same, sameItems_iff] at hsame
      exact ⟨others, hother, hsame, wellFormed_array_iff.1 hwell, wellFormed_array_iff.1 hwell'⟩
  | _ => simp [same] at hsame

/-- Equal nodes define one symbol. -/
theorem Enumeration.symbolOf_of_same {x y : Json} {symbol : String} (h : x.same y = true)
    (hsymbol : symbolOf x = .ok symbol) : symbolOf y = .ok symbol := by
  cases x with
  | string text =>
      cases y with
      | string text' =>
          obtain rfl : text = text' := by simpa [Json.same] using h
          exact hsymbol
      | _ => simp [Json.same] at h
  | _ => simp [symbolOf] at hsymbol

/-- **Equal schemas are described by equal types.** -/
theorem NamedType.exists_same_of_same {lead : String} {x y : Json} (hx : x.wellFormed = true)
    (hy : y.wellFormed = true) (h : x.same y = true) {type : NamedType}
    (htype : ofSchema lead x = .ok type) :
    ∃ other, ofSchema lead y = .ok other ∧ type.Same other := by
  have htext := Json.textMember?_of_same hx hy h
  obtain ⟨fullName, hname, hdescribed⟩ := ofSchema_eq_ok_iff.1 htype
  rw [htext] at hname
  rcases hdescribed with ⟨kind, nodes, fields, hkind, hrecord, hnodes, hfields, rfl⟩ |
    ⟨nodes, symbols, hkind, hnodes, hsymbols, rfl⟩
  · obtain ⟨others, hothers, hsame, hwell, hwell'⟩ := Json.exists_items_of_same hx hy h hnodes
    rw [htext] at hkind
    obtain ⟨fields', hfields', hequal⟩ :=
      exists_forall₂_of_forall₂ (fun node hnode other hother field hsame hfield =>
      Field.exists_same_of_same (hwell node hnode) (hwell' other hother) hsame hfield) hsame
        hfields
    refine ⟨_, ofSchema_eq_ok_iff.2 ⟨fullName, hname,
      .inl ⟨kind, others, fields', hkind, hrecord, hothers, hfields', rfl⟩⟩, ?_⟩
    rw [htext]
    exact .record hequal
  · obtain ⟨others, hothers, hsame, -, -⟩ := Json.exists_items_of_same hx hy h hnodes
    rw [htext] at hkind
    have hstep : ∀ node ∈ nodes, ∀ other ∈ others, ∀ symbol, node.same other = true →
        Enumeration.symbolOf node = .ok symbol → Enumeration.symbolOf other = .ok symbol :=
      fun _ _ _ _ _ => Enumeration.symbolOf_of_same
    have hsymbols' := forall₂_of_forall₂ hstep hsame hsymbols
    refine ⟨_, ofSchema_eq_ok_iff.2
      ⟨fullName, hname, .inr ⟨others, symbols, hkind, hothers, hsymbols', rfl⟩⟩, ?_⟩
    rw [htext]
    exact .enum _

end AvroBindings
