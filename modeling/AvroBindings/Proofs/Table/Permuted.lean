import Mathlib.Data.List.Perm.Basic
import AvroBindings.Proofs.Convert.Shape
import AvroBindings.Proofs.Table.Reaches

/-!
# The order of alternatives

Types and tables that differ only in the order in which the alternatives of their unions stand.
Whether they admit null, what they reach, the shapes they take and whether their unions can be
confused does not depend on that order.

## Main Definitions

* `Descriptor.Permuted`, `Field.Permuted`, `NamedType.Permuted`, `Table.Permuted` — equality up
  to the order of alternatives, in unions at any depth.
* `Table.UnionsDisjoint` — the unions that a type reaches cannot be confused.

## Main Statements

* `Descriptor.Permuted.exists_counterpart` — an alternative stands again among the permuted
  ones.
* `Table.Permuted.shapes_subset` — permuted types take the same shapes.
* `Table.Reaches.permuted` — they reach permuted types.
* `Table.ShapeDisjoint.permuted`, `Table.UnionsDisjoint.permuted` — what cannot be confused
  cannot be in another order.
-/

namespace AvroBindings

/-! ## Types -/

/-- **Two types are equal up to the order of alternatives**: of the alternatives of a union,
each is permuted in itself, and then they change places. -/
inductive Descriptor.Permuted : Descriptor → Descriptor → Prop
  | primitive (kind : Primitive) : Permuted (.primitive kind) (.primitive kind)
  | optional {inner other : Descriptor} (h : Permuted inner other) :
      Permuted (.optional inner) (.optional other)
  | union {alternatives between others : List Descriptor}
      (length : alternatives.length = between.length)
      (h : ∀ pair ∈ alternatives.zip between, Permuted pair.1 pair.2)
      (order : between.Perm others) : Permuted (.union alternatives) (.union others)
  | list {item other : Descriptor} (h : Permuted item other) :
      Permuted (.list item) (.list other)
  | map {value other : Descriptor} (h : Permuted value other) :
      Permuted (.map value) (.map other)
  | named (name : String) : Permuted (.named name) (.named name)

namespace Descriptor.Permuted

theorem refl (ty : Descriptor) : ty.Permuted ty := by
  induction ty using Descriptor.induction with
  | primitive kind => exact .primitive kind
  | optional inner ih => exact .optional ih
  | union alternatives ih =>
      have hsame : List.Forall₂ Descriptor.Permuted alternatives alternatives :=
        List.forall₂_same.2 ih
      exact .union rfl (fun pair hpair => List.forall₂_zip hsame hpair) (.refl _)
  | list item ih => exact .list ih
  | map value ih => exact .map ih
  | named name => exact .named name

/-- Alternatives may change places. -/
theorem of_perm {alternatives others : List Descriptor} (order : alternatives.Perm others) :
    (Descriptor.union alternatives).Permuted (.union others) := by
  have hsame : List.Forall₂ Descriptor.Permuted alternatives alternatives :=
    List.forall₂_same.2 fun ty _ => refl ty
  exact .union rfl (fun pair hpair => List.forall₂_zip hsame hpair) order

theorem symm {ty other : Descriptor} (h : ty.Permuted other) : other.Permuted ty := by
  induction h with
  | primitive kind => exact .primitive kind
  | optional _ ih => exact .optional ih
  | @union alternatives between others length _ order ih =>
      -- The places are changed back first, and the alternatives after that.
      have hback : List.Forall₂ Descriptor.Permuted between alternatives :=
        List.Forall₂.flip (List.forall₂_iff_zip.2 ⟨length, fun hpair => ih _ hpair⟩)
      obtain ⟨between', hbetween, order'⟩ := List.perm_comp_forall₂ order.symm hback
      exact .union hbetween.length_eq (fun pair hpair => List.forall₂_zip hbetween hpair) order'
  | list _ ih => exact .list ih
  | map _ ih => exact .map ih
  | named name => exact .named name

/-- An alternative has its partner among those that have changed places. -/
theorem exists_partner {R : Descriptor → Descriptor → Prop}
    {alternatives between others : List Descriptor} (h : List.Forall₂ R alternatives between)
    (order : between.Perm others) {ty : Descriptor} (hty : ty ∈ alternatives) :
    ∃ other ∈ others, R ty other := by
  obtain ⟨other, hother, hpartner⟩ := exists_right_of_forall₂ h hty
  exact ⟨other, order.mem_iff.1 hother, hpartner⟩

/-- **An alternative stands again among the permuted ones.** -/
theorem exists_counterpart {alternatives others : List Descriptor}
    (h : (Descriptor.union alternatives).Permuted (.union others)) {ty : Descriptor}
    (hty : ty ∈ alternatives) :
    ∃ other ∈ others, ty.Permuted other := by
  cases h with
  | @union _ between _ length hpairs order =>
      have hbetween : List.Forall₂ Descriptor.Permuted alternatives between :=
        List.forall₂_iff_zip.2 ⟨length, fun hpair => hpairs _ hpair⟩
      exact exists_partner hbetween order hty

theorem admitsNull_of_admitsNull {ty other : Descriptor} (h : ty.Permuted other) :
    ty.admitsNull = true → other.admitsNull = true := by
  induction h with
  | @union alternatives between others length _ order ih =>
      have hadmits : List.Forall₂
          (fun ty other => ty.admitsNull = true → other.admitsNull = true) alternatives
          between := List.forall₂_iff_zip.2 ⟨length, fun hpair => ih _ hpair⟩
      rw [admitsNull, admitsNull, anyAdmitsNull_eq_any, anyAdmitsNull_eq_any, List.any_eq_true,
        List.any_eq_true]
      rintro ⟨ty, hty, hnull⟩
      obtain ⟨other, hother, himp⟩ := exists_partner hadmits order hty
      exact ⟨other, hother, himp hnull⟩
  | _ => exact id

/-- Permuted types admit null alike. -/
theorem admitsNull_eq {ty other : Descriptor} (h : ty.Permuted other) :
    ty.admitsNull = other.admitsNull :=
  Bool.eq_iff_iff.2 ⟨h.admitsNull_of_admitsNull, h.symm.admitsNull_of_admitsNull⟩

end Descriptor.Permuted

/-! ## Tables -/

/-- **Two fields are equal up to the order of alternatives** in their types. -/
structure Field.Permuted (field other : Field) : Prop where
  name : field.name = other.name
  type : field.type.Permuted other.type
  default : field.default = other.default
  doc : field.doc = other.doc

/-- **Two named types are equal up to the order of alternatives** in the types of fields. -/
inductive NamedType.Permuted : NamedType → NamedType → Prop
  | record {name : String} {fields others : List Field} {doc : Option String}
      (h : List.Forall₂ Field.Permuted fields others) :
      Permuted (.record ⟨name, fields, doc⟩) (.record ⟨name, others, doc⟩)
  | enum (enum : Enumeration) : Permuted (.enum enum) (.enum enum)

/-- **Two tables are equal up to the order of alternatives** in the types of fields, the order
of entries aside: under each name they have types that are, or both none. -/
def Table.Permuted (table other : Table) : Prop :=
  ∀ name, Option.Rel NamedType.Permuted (table.find? name) (other.find? name)

theorem Field.Permuted.symm {field other : Field} (h : field.Permuted other) :
    other.Permuted field :=
  ⟨h.name.symm, h.type.symm, h.default.symm, h.doc.symm⟩

theorem NamedType.Permuted.symm {type other : NamedType} (h : type.Permuted other) :
    other.Permuted type := by
  cases h with
  | record h => exact .record (h.flip.imp fun _ _ => Field.Permuted.symm)
  | enum enum => exact .enum enum

theorem Table.Permuted.symm {table other : Table} (h : table.Permuted other) :
    other.Permuted table :=
  fun name => rel_symm (fun _ _ => NamedType.Permuted.symm) (h name)

section Tables

variable {table other : Table} (h : table.Permuted other)

include h

theorem Table.Permuted.refersToEnum_of_refersToEnum {ty ty' : Descriptor}
    (hty : ty.Permuted ty') (henum : table.refersToEnum ty = true) :
    other.refersToEnum ty' = true := by
  obtain ⟨name, e, rfl, found⟩ := Table.refersToEnum_iff.1 henum
  cases hty with
  | named =>
      obtain ⟨type', found', htype⟩ := exists_of_rel (h name) found
      cases htype with
      | enum => exact Table.refersToEnum_iff.2 ⟨name, e, rfl, found'⟩

/-- Permuted types refer to enums alike. -/
theorem Table.Permuted.refersToEnum_eq {ty ty' : Descriptor} (hty : ty.Permuted ty') :
    table.refersToEnum ty = other.refersToEnum ty' :=
  Bool.eq_iff_iff.2 ⟨h.refersToEnum_of_refersToEnum hty,
    h.symm.refersToEnum_of_refersToEnum hty.symm⟩

/-- **Permuted types take the same shapes.** -/
theorem Table.Permuted.shapes_subset {ty ty' : Descriptor} (hty : ty.Permuted ty') :
    table.shapes ty ⊆ other.shapes ty' := by
  induction hty with
  | primitive kind => exact List.Subset.refl _
  | optional _ ih => exact List.cons_subset_cons _ ih
  | @union alternatives between others length _ order ih =>
      have hsubsets : List.Forall₂ (fun ty ty' => table.shapes ty ⊆ other.shapes ty')
          alternatives between :=
        List.forall₂_iff_zip.2 ⟨length, fun hpair => ih _ hpair⟩
      intro shape hshape
      obtain ⟨ty, hty, hmem⟩ := Table.mem_shapesOfAny.1 hshape
      obtain ⟨ty', hty', hsubset⟩ := Descriptor.Permuted.exists_partner hsubsets order hty
      exact Table.mem_shapesOfAny.2 ⟨ty', hty', hsubset hmem⟩
  | list => exact List.Subset.refl _
  | map => exact List.Subset.refl _
  | named name =>
      rw [shapes, shapes]
      rcases rel_cases (h name) with ⟨hnone, hnone'⟩ | ⟨type, type', hfound, hfound', htype⟩
      · rw [hnone, hnone']
        exact List.Subset.refl _
      · rw [hfound, hfound']
        cases htype <;> exact List.Subset.refl _

/-! ## What is reached -/

/-- **Permuted types reach permuted types.** -/
theorem Table.Reaches.permuted {ty ty' target : Descriptor} (hreach : table.Reaches ty target)
    (hty : ty.Permuted ty') :
    ∃ target', other.Reaches ty' target' ∧ target.Permuted target' := by
  induction hreach generalizing ty' with
  | refl ty => exact ⟨ty', .refl ty', hty⟩
  | optional _ ih =>
      cases hty with
      | optional hinner =>
          obtain ⟨target', hreach', htarget⟩ := ih hinner
          exact ⟨target', .optional hreach', htarget⟩
  | union member _ ih =>
      cases ty' with
      | union others =>
          obtain ⟨alternative, hmember, halternative⟩ := hty.exists_counterpart member
          obtain ⟨target', hreach', htarget⟩ := ih halternative
          exact ⟨target', .union hmember hreach', htarget⟩
      | _ => cases hty
  | list _ ih =>
      cases hty with
      | list hitem =>
          obtain ⟨target', hreach', htarget⟩ := ih hitem
          exact ⟨target', .list hreach', htarget⟩
  | map _ ih =>
      cases hty with
      | map hvalue =>
          obtain ⟨target', hreach', htarget⟩ := ih hvalue
          exact ⟨target', .map hreach', htarget⟩
  | field found member _ ih =>
      cases hty with
      | named name =>
          obtain ⟨type', found', htype⟩ := exists_of_rel (h _) found
          cases htype with
          | record hfields =>
              obtain ⟨field', member', hfield⟩ := exists_right_of_forall₂ hfields member
              obtain ⟨target', hreach', htarget⟩ := ih hfield.type
              exact ⟨target', .field found' member' hreach', htarget⟩

/-! ## Unions that cannot be confused -/

/-- **No union that is reached from the type can be confused.** -/
def Table.UnionsDisjoint (table : Table) (ty : Descriptor) : Prop :=
  ∀ alternatives, table.Reaches ty (.union alternatives) → table.ShapeDisjoint alternatives

omit h in
theorem Table.UnionsDisjoint.mono {ty ty' : Descriptor} (disjoint : table.UnionsDisjoint ty)
    (reaches : ∀ target, table.Reaches ty' target → table.Reaches ty target) :
    table.UnionsDisjoint ty' :=
  fun alternatives hreach => disjoint alternatives (reaches _ hreach)

omit h in
/-- What holds of each two items of a list holds of each two of a related one, if it is kept by
the relation. -/
theorem pairwise_of_forall₂ {α β : Type} {R : α → β → Prop} {S : α → α → Prop}
    {T : β → β → Prop} {l : List α} {l' : List β}
    (keeps : ∀ a b a' b', R a a' → R b b' → S a b → T a' b') (hrelated : List.Forall₂ R l l')
    (hl : l.Pairwise S) : l'.Pairwise T := by
  induction hrelated with
  | nil => exact .nil
  | @cons a a' rest rest' ha hrest ih =>
      rw [List.pairwise_cons] at hl ⊢
      refine ⟨fun b' hb' => ?_, ih hl.2⟩
      obtain ⟨b, hb, hR⟩ := exists_left_of_forall₂ hrest hb'
      exact keeps a b a' b' ha hR (hl.1 b hb)

/-- **Alternatives that cannot be confused cannot be in any other order.** -/
theorem Table.ShapeDisjoint.permuted {alternatives others : List Descriptor}
    (disjoint : table.ShapeDisjoint alternatives)
    (hunion : (Descriptor.union alternatives).Permuted (.union others)) :
    other.ShapeDisjoint others := by
  cases hunion with
  | @union _ between _ length hpairs order =>
      have hbetween : List.Forall₂ Descriptor.Permuted alternatives between :=
        List.forall₂_iff_zip.2 ⟨length, fun hpair => hpairs _ hpair⟩
      have hkinds : List.Forall₂ Descriptor.Permuted
          (alternatives.filter fun ty => !table.refersToEnum ty)
          (between.filter fun ty => !other.refersToEnum ty) := by
        refine List.rel_filter (fun ty ty' hty => ?_) hbetween
        show (!table.refersToEnum ty) = true ↔ (!other.refersToEnum ty') = true
        rw [h.refersToEnum_eq hty]
      have hapart : (between.filter fun ty => !other.refersToEnum ty).Pairwise other.Apart := by
        refine pairwise_of_forall₂ (fun ty ty₂ ty' ty₂' hty hty₂ apart shape hshape hshape₂ =>
          ?_) hkinds disjoint
        exact apart shape (h.symm.shapes_subset hty.symm hshape)
          (h.symm.shapes_subset hty₂.symm hshape₂)
      exact hapart.perm (order.filter _) fun hxy => Std.Symm.symm _ _ hxy

/-- Unions that cannot be confused in one order cannot be in another. -/
theorem Table.UnionsDisjoint.permuted {ty ty' : Descriptor} (disjoint : table.UnionsDisjoint ty)
    (hty : ty.Permuted ty') : other.UnionsDisjoint ty' := by
  intro others hreach
  obtain ⟨target, hreach', htarget⟩ := hreach.permuted h.symm hty.symm
  cases target with
  | union alternatives => exact (disjoint alternatives hreach').permuted h htarget.symm
  | _ => cases htarget

end Tables

end AvroBindings
