import AvroBindings.Proofs.Declaration.ImportBlock
import AvroBindings.Proofs.NamedType.Renamed

/-!
# Type expressions and display

A type is printed in two ways: as a text of its own, with its references by their full names,
and as a type expression in the declaration of a record.  The two differ in how a reference is
spelled, and in nothing else.

## Main Definitions

* `Imports.after` — the imports after several type expressions.

## Main Statements

* `Descriptor.occursInside_iff_of_mem_references` — a reference is the whole type or inside a
  container, never both.
* `Descriptor.text_rename` — renaming the references of a type spells them anew in its text.
* `Descriptor.annotationAt_eq_text` — the annotation of a field as the text of its type,
  renamed.
* `Imports.owner_after` — type expressions leave the declared type alone.
* `Imports.expression_displayed` — the expression of a type is its text with other spellings,
  whatever came before.

## Design Notes

**A spelling for each name.**  A reference is the whole type, or it stands inside a container,
and a type has references of one kind only.  So two references to one name are spelled alike
wherever they stand in a type, and the spellings are those of a renaming.

**What came before.**  An expression reads nothing of the imports but the declared type, and
this is what no expression changes.
-/

namespace AvroBindings

/-! ## The text of a renamed type -/

namespace Descriptor

/-- Whether the declared type occurs inside a container can be read off the needs of the
expression. -/
instance (name : String) (ty : Descriptor) : Decidable ((named name).OccursInside ty) :=
  decidable_of_iff _ ownerQuoted_mem_needsAt

/-- **A reference stands inside a container exactly if it is not the whole type.** -/
theorem occursInside_iff_of_mem_references {name : String} {ty : Descriptor}
    (h : name ∈ ty.references) :
    (named name).OccursInside ty ↔ ty ≠ named name := by
  constructor
  · rintro hinside rfl
    exact occursInside_named hinside
  · exact fun hne => (occurs_iff.1 (mem_references_iff.1 h)).resolve_left hne.symm

mutual

/-- **Renamed references are spelled anew in the text of a type**, which keeps all its other
parts. -/
theorem text_rename (spell : String → String) :
    ∀ ty : Descriptor, (ty.rename spell).text = ty.written spell
  | .primitive kind => rfl
  | .optional inner => by rw [rename, text, written, text_rename spell inner]
  | .union alternatives => by rw [rename, text, written, texts_renameAll spell alternatives]
  | .list item => by rw [rename, text, written, text_rename spell item]
  | .map value => by rw [rename, text, written, text_rename spell value]
  | .named name => rfl

theorem texts_renameAll (spell : String → String) :
    ∀ types : List Descriptor, texts (renameAll spell types) = allWritten spell types
  | [] => rfl
  | ty :: rest =>
      by rw [renameAll, texts, allWritten, text_rename spell ty, texts_renameAll spell rest]

end

/-- **The annotation of a field is the text of its type with the classes for the references**,
in quotes if they are the declared type and stand inside a container. -/
theorem annotationAt_eq_text (owner : String) (ty : Descriptor) :
    ty.annotationAt owner false =
      (ty.rename fun name =>
        if (named name).OccursInside ty ∧ name = owner then "\"" ++ Name.className name ++ "\""
        else Name.className name).text := by
  obtain ⟨hwhole, hcontainer⟩ := annotationAt_false owner ty
  by_cases hname : ∃ name, ty = named name
  · obtain ⟨name, rfl⟩ := hname
    -- Nothing occurs inside a reference.
    simp [hwhole name rfl, rename, text]
  · have hne : ∀ name, ty ≠ named name := fun name h => hname ⟨name, h⟩
    rw [hcontainer hne, ← text_rename]
    refine congrArg text (rename_congr fun name href => ?_)
    have hinside : (named name).OccursInside ty :=
      (occursInside_iff_of_mem_references href).2 (hne name)
    simp [spelling, hinside]

end Descriptor

/-! ## Type expressions in a row -/

namespace Imports

/-- The imports after the expressions of several types. -/
def after (imports : Imports) (types : List Descriptor) : Imports :=
  types.foldl (fun imports ty => (imports.expression ty).2) imports

/-- An expression is the annotation of its type. -/
theorem expression_fst (imports : Imports) (ty : Descriptor) :
    (imports.expression ty).1 = ty.annotationAt imports.owner false := by
  rw [expression, expressionAt_eq]

/-- An expression does not change which type is declared. -/
theorem owner_expression (imports : Imports) (ty : Descriptor) :
    (imports.expression ty).2.owner = imports.owner := by
  rw [expression, expressionAt_eq]
  exact owner_needAll _ _

/-- **Nor do several of them.** -/
theorem owner_after (imports : Imports) (types : List Descriptor) :
    (imports.after types).owner = imports.owner := by
  induction types generalizing imports with
  | nil => rfl
  | cons ty rest ih =>
      show ((imports.expression ty).2.after rest).owner = imports.owner
      rw [ih, owner_expression]

/-- **Type expressions agree with display.**  The expression of a type is the text of the type
with the classes of the names in the place of the names, each in quotes exactly if it stands
inside a container and names the declared type.  It is the same after any other expressions. -/
theorem expression_displayed (imports : Imports) (ty : Descriptor) :
    (imports.expression ty).1 =
        (ty.rename fun name =>
          if (Descriptor.named name).OccursInside ty ∧
          name = imports.owner then "\"" ++ Name.className name ++ "\""
          else Name.className name).text ∧
      ∀ earlier : List Descriptor,
        ((imports.after earlier).expression ty).1 = (imports.expression ty).1 := by
  refine ⟨?_, fun earlier => ?_⟩
  · rw [expression_fst, Descriptor.annotationAt_eq_text]
  · rw [expression_fst, expression_fst, owner_after]

/-- A node of a tree or several labels, as the type is displayed and as the node itself writes
it. -/
example :
    let ty : Descriptor := .union [.named "tree.Node", .list (.named "tree.Label")]
    ty.text = "Union[tree.Node, List[tree.Label]]" ∧
      ((start "tree.Node").expression ty).1 = "Union[\"Node\", List[Label]]" := by
        decide +kernel

end Imports

end AvroBindings
