import AvroBindings.Table

/-!
# Types reached through a table

The types that conversion at a type can come to: its parts, and the types of the fields of the
records that its references find.

## Main Definitions

* `Table.Reaches` — a type is reached from a type.
* `Descriptor.unions`, `Table.unions` — the unions that stand in a type, and in the types of the
  fields of a table.

## Main Statements

* `Table.Reaches.mem_unions` — a union that is reached is one of finitely many.
-/

namespace AvroBindings

/-- **A type is reached from a type** through the table. -/
inductive Table.Reaches (table : Table) : Descriptor → Descriptor → Prop
  | refl (ty : Descriptor) : Reaches table ty ty
  | optional {inner ty : Descriptor} (h : Reaches table inner ty) :
      Reaches table (.optional inner) ty
  | union {alternatives : List Descriptor} {alternative ty : Descriptor}
      (member : alternative ∈ alternatives) (h : Reaches table alternative ty) :
      Reaches table (.union alternatives) ty
  | list {item ty : Descriptor} (h : Reaches table item ty) : Reaches table (.list item) ty
  | map {value ty : Descriptor} (h : Reaches table value ty) : Reaches table (.map value) ty
  | field {name : String} {r : Record} {field : Field} {ty : Descriptor}
      (found : table.find? name = some (.record r)) (member : field ∈ r.fields)
      (h : Reaches table field.type ty) : Reaches table (.named name) ty

/-! ## The unions that are reached -/

mutual

/-- The unions that stand in a type, by their alternatives. -/
def Descriptor.unions : Descriptor → List (List Descriptor)
  | .primitive _ => []
  | .optional inner => inner.unions
  | .union alternatives => alternatives :: unionsOfAll alternatives
  | .list item => item.unions
  | .map value => value.unions
  | .named _ => []

/-- The unions that stand in several types. -/
def Descriptor.unionsOfAll : List Descriptor → List (List Descriptor)
  | [] => []
  | ty :: rest => ty.unions ++ unionsOfAll rest

end

theorem Descriptor.unions_subset_unionsOfAll {ty : Descriptor} {types : List Descriptor}
    (h : ty ∈ types) :
    ty.unions ⊆ unionsOfAll types := by
  induction types with
  | nil => simp at h
  | cons other rest ih =>
      rw [unionsOfAll]
      rcases List.mem_cons.1 h with rfl | h
      · exact List.subset_append_left _ _
      · exact fun _ hmem => List.mem_append_right _ (ih h hmem)

/-- The unions that stand in a type or in the type of a field of the table. -/
def Table.unions (table : Table) (ty : Descriptor) : List (List Descriptor) :=
  ty.unions ++ (table.entries.map Prod.snd).flatMap fun
    | .record r => r.fields.flatMap fun field => field.type.unions
    | .enum _ => []

/-- **A union that is reached is one of finitely many**: those of the type and of the fields of
the table. -/
theorem Table.Reaches.mem_unions {table : Table} {ty : Descriptor}
    {alternatives : List Descriptor} (h : table.Reaches ty (.union alternatives)) :
    alternatives ∈ table.unions ty := by
  unfold Table.unions
  generalize htarget : Descriptor.union alternatives = target at h
  induction h with
  | refl ty =>
      subst htarget
      exact List.mem_append_left _ List.mem_cons_self
  | optional _ ih => exact ih htarget
  | union member _ ih =>
      rcases List.mem_append.1 (ih htarget) with hmem | hmem
      · exact List.mem_append_left _
          (List.mem_cons_of_mem _ (Descriptor.unions_subset_unionsOfAll member hmem))
      · exact List.mem_append_right _ hmem
  | list _ ih => exact ih htarget
  | map _ ih => exact ih htarget
  | @field name r field ty found member _ ih =>
      refine List.mem_append_right _ ?_
      rcases List.mem_append.1 (ih htarget) with hmem | hmem
      · obtain ⟨before, after, hentries, -⟩ := List.lookup_eq_some_iff.1 found
        refine List.mem_flatMap.2 ⟨.record r, ?_, List.mem_flatMap.2 ⟨field, member, hmem⟩⟩
        simp [hentries]
      · exact hmem

end AvroBindings
