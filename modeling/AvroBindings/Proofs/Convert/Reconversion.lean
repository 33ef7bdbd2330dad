import AvroBindings.Proofs.Convert.Filled
import AvroBindings.Proofs.Convert.Shape

/-!
# Converting a converted value again

The plain form of a converted value is converted to the same value.  The unions may be
ambiguous: the alternative that was chosen for the data is chosen again for the filled data,
because no earlier one takes it now that did not before.

## Main Statements

* `readsBack_of_conversion` — a converted value reads back, with either way of matching.
* `ofPlain?_stable` — the same of `Value.ofPlain?` and `Value.ofPlainNamed?`.

## Design Notes

**Defaults.**  A default inside an alternative can be filled in so that an earlier alternative,
which declares the field without a default, takes the filled data.  So the alternatives of
unions must be free of defaults; elsewhere defaults do no harm.
-/

namespace AvroBindings

open Conversion

/-! ## The choice of an alternative -/

section Choice

variable {table : Table} {matching : Matching} {ty : Descriptor} {plain plain' : Json}

/-- A type that refuses data refuses it filled, in an exact attempt. -/
theorem refused_of_filled (free : table.DefaultFree ty) (hplain : plain.wellFormed = true)
    (filled : Filled matching plain plain') (h : Refused table matching ty plain) :
    Refused table .exact ty plain' := by
  refine (taken_or_refused free .exact plain').resolve_left ?_
  rintro ⟨v', htaken⟩
  obtain ⟨v, hv⟩ := taken_of_filled free hplain filled htaken
  exact h.not_taken hv

variable {alternatives before after : List Descriptor} {v : Value}

/-- What was chosen in the exact pass is chosen there again. -/
theorem ReadsBack.union_of_exactly
    (order : table.exactOrder alternatives = before ++ ty :: after)
    (free : ∀ other ∈ before, table.DefaultFree other) (hplain : plain.wellFormed = true)
    (filled : Filled .exact plain v.toPlain)
    (refused : ∀ other ∈ before, Refused table .exact other plain) (h : ReadsBack table ty v) :
    ReadsBack table (.union alternatives) v := by
  intro matching
  refine conversion_eq_ok_iff.2 (.exactly order (fun other hother => ?_) (h .exact))
  exact refused_of_filled (free other hother) hplain filled (refused other hother)

/-- **What was chosen in the coercing pass is chosen again, in the exact pass.**  The references
to enums that this pass tries first have refused the data before, in the exact pass, and the
alternatives before the chosen one in the coercing pass. -/
theorem ReadsBack.union_of_coerced
    (free : ∀ other ∈ before ++ ty :: after, table.DefaultFree other)
    (hplain : plain.wellFormed = true) (filled : Filled .coercing plain v.toPlain)
    (inexact : ∀ other ∈ before ++ ty :: after, Refused table .exact other plain)
    (refused : ∀ other ∈ before, Refused table .coercing other plain)
    (taken : (conversion table .coercing ty plain).run = some (.ok v))
    (h : ReadsBack table ty v) :
    ReadsBack table (.union (before ++ ty :: after)) v := by
  intro matching
  have hty : ty ∈ before ++ ty :: after := List.mem_append_right _ List.mem_cons_self
  -- An enum takes the same data in both passes, so what only the coercing pass took refers to
  -- none.
  have henum : table.refersToEnum ty = false := by
    rw [Bool.eq_false_iff]
    exact fun henum => (refused_of_refersToEnum henum (inexact ty hty)).not_taken taken
  have order : table.exactOrder (before ++ ty :: after) =
      ((before ++ ty :: after).filter table.refersToEnum ++
          before.filter fun ty => !table.refersToEnum ty) ++
        ty :: after.filter fun ty => !table.refersToEnum ty := by
    rw [Table.exactOrder, List.filter_append (p := fun ty => !table.refersToEnum ty),
      List.filter_cons_of_pos (by simp [henum]), List.append_assoc]
  refine conversion_eq_ok_iff.2 (.exactly order (fun other hother => ?_) (h .exact))
  rcases List.mem_append.1 hother with hmem | hmem
  · obtain ⟨hmem, hother⟩ := List.mem_filter.1 hmem
    have hrefused : Refused table .coercing other plain :=
      refused_of_refersToEnum hother (inexact other hmem)
    exact refused_of_filled (free other hmem) hplain filled hrefused
  · have hmem := (List.mem_filter.1 hmem).1
    exact refused_of_filled (free other (List.mem_append_left _ hmem)) hplain filled
      (refused other hmem)

end Choice

/-! ## Stability -/

/-- **A converted value reads back**, if no alternative of a union reaches a default. -/
theorem readsBack_of_conversion {table : Table} (distinct : table.distinctFields = true)
    (hdefaults : table.wellFormed = true) {matching : Matching} {ty : Descriptor} {plain : Json}
    {v : Value} (hplain : plain.wellFormed = true) (free : table.UnionsDefaultFree ty)
    (h : (conversion table matching ty plain).run = some (.ok v)) : ReadsBack table ty v := by
  revert hplain free
  refine conversion_induction (motive := fun _ ty plain v => plain.wellFormed = true →
    table.UnionsDefaultFree ty → ReadsBack table ty v) ?_ h
  intro matching ty plain v step hplain free
  cases step with
  | primitive h => exact .primitive (Primitive.hasType_of_ofPlain hplain h)
  | absent => exact .of_admitsNull rfl
  | present _ h => exact .optional (h.2 hplain (free.mono fun _ => .optional))
  | @exactly alternatives before after ty _ _ order refused h =>
      have hmem : ∀ other ∈ before ++ ty :: after, other ∈ alternatives := fun other hother =>
        table.mem_exactOrder.1 (order ▸ hother)
      have hty : ty ∈ alternatives := hmem ty (List.mem_append_right _ List.mem_cons_self)
      have hfree := free alternatives (.refl _)
      have hback := h.2 hplain (free.mono fun _ => .union hty)
      have hfilled : Filled .exact plain v.toPlain :=
        filled_of_conversion distinct (hfree ty hty) hplain id h.1
      exact hback.union_of_exactly order (fun other hother =>
        hfree other (hmem other (List.mem_append_left _ hother))) hplain hfilled refused
  | @coerced before after ty _ _ _ inexact refused h =>
      have hty : ty ∈ before ++ ty :: after := List.mem_append_right _ List.mem_cons_self
      have hfree := free (before ++ ty :: after) (.refl _)
      have hback := h.2 hplain (free.mono fun _ => .union hty)
      have hfilled : Filled .coercing plain v.toPlain :=
        filled_of_conversion distinct (hfree ty hty) hplain id h.1
      exact hback.union_of_coerced hfree hplain hfilled inexact refused h.1
  | list h =>
      rw [Json.wellFormed_array_iff] at hplain
      refine .list fun v hv => ?_
      obtain ⟨x, hx, -, hback⟩ := exists_left_of_forall₂ h hv
      exact hback (hplain x hx) (free.mono fun _ => .list)
  | map h =>
      rw [Json.wellFormed_object_iff] at hplain
      refine .map fun entry hentry => ?_
      obtain ⟨member, hmember, -, -, hback⟩ := exists_left_of_forall₂ h hentry
      exact hback (hplain.2 member hmember) (free.mono fun _ => .map)
  | enum found h => exact fun matching => conversion_eq_ok_iff.2 (.enum found h)
  | record found declared h =>
      have hkeys := keys_eq_names_iff.2 (h.imp fun _ _ hentry => hentry.1)
      have hnodup := Table.nodup_of_find? distinct found
      rw [Entries.ofPairs_of_nodup (hkeys ▸ hnodup)]
      refine .record found hnodup hkeys fun ⟨field, name, v⟩ hpair => ?_
      have hfield := (List.of_mem_zip hpair).1
      obtain ⟨-, htaken⟩ := List.forall₂_zip h hpair
      unfold Verdicts.TakesField at htaken
      split at htaken
      next part hpart =>
        have hwell := Table.wellFormed_part hdefaults found hfield hplain hpart
        exact htaken.2 hwell (free.mono fun _ => .field found hfield)
      next =>
        obtain ⟨hnull, rfl⟩ := htaken
        exact .of_admitsNull hnull

/-- **Conversion is stable.**  The plain form of what conversion gives is converted to the same
value, at a type and at the name of a record or enum. -/
theorem ofPlain?_stable {table : Table} (distinct : table.distinctFields = true)
    (hdefaults : table.wellFormed = true) {plain : Json} {v : Value}
    (hplain : plain.wellFormed = true) :
    (∀ ty, table.UnionsDefaultFree ty → Value.ofPlain? table ty plain = some (.ok v) →
      Value.ofPlain? table ty v.toPlain = some (.ok v)) ∧
    (∀ name, table.UnionsDefaultFree (.named name) →
      Value.ofPlainNamed? table name plain = some (.ok v) →
      Value.ofPlainNamed? table name v.toPlain = some (.ok v)) := by
  have hstable : ∀ ty, table.UnionsDefaultFree ty →
      Value.ofPlain? table ty plain = some (.ok v) →
      Value.ofPlain? table ty v.toPlain = some (.ok v) := by
    intro ty free h
    rw [Value.ofPlain?_eq_conversion] at h ⊢
    exact readsBack_of_conversion distinct hdefaults hplain free h .coercing
  exact ⟨hstable, fun name => hstable (.named name)⟩

/-- The unions of `Table.nodes` offer numbers, strings and symbols, and no record with its
defaults. -/
theorem unionsDefaultFree_nodes : Table.nodes.UnionsDefaultFree (.named "t.Node") := by
  have hunions : Table.nodes.unions (.named "t.Node") =
      [[.primitive .float, .primitive .string, .named "t.Choice"]] := rfl
  intro alternatives hreach alternative hmem name r hnamed found
  obtain rfl := List.mem_singleton.1 (hunions ▸ hreach.mem_unions)
  rcases hmem with _ | ⟨_, _ | ⟨_, _ | ⟨_, ⟨⟩⟩⟩⟩
  · cases hnamed
  · cases hnamed
  · cases hnamed with
    | refl => cases found
    | field found' _ _ => cases found'

/-- A node whose kind is an integer: only the coercing pass takes it, as a float.  The plain
form of the node has the float, the default of the weight and a null for the next node, and is
converted to the same node. -/
theorem ofPlain?_stable_node :
    Table.nodes.distinctFields = true ∧ Table.nodes.wellFormed = true ∧
      (Json.object [("kind", .number (.int 3))]).wellFormed = true ∧
      Table.nodes.UnionsDefaultFree (.named "t.Node") ∧
      Value.ofPlain? Table.nodes (.named "t.Node") (.object [("kind", .number (.int 3))]) =
        some (.ok (.node (.float (.ofInt 3)))) ∧
      Value.ofPlain? Table.nodes (.named "t.Node") (Value.node (.float (.ofInt 3))).toPlain =
        some (.ok (.node (.float (.ofInt 3)))) := by
  have distinct : Table.nodes.distinctFields = true := by decide
  have hdefaults : Table.nodes.wellFormed = true := by decide
  have hplain : (Json.object [("kind", .number (.int 3))]).wellFormed = true := by decide
  exact ⟨distinct, hdefaults, hplain, unionsDefaultFree_nodes, rfl,
    (ofPlain?_stable distinct hdefaults hplain).1 _ unionsDefaultFree_nodes rfl⟩

end AvroBindings
