import AvroBindings.Proofs.Convert.Alike
import AvroBindings.Proofs.Table.Permuted

/-!
# Conversion and the order of alternatives

A union tries its alternatives in order, twice.  If they cannot be confused, the order does not
show: conversion gives the same value at types and with tables that differ from each other only
in the order of alternatives.

## Main Statements

* `convertUnion_follows` — where a union ends, it ends alike with its alternatives in another
  order.
* `convertWithin_follows` — where a conversion with fuel ends, the conversion with the permuted
  table ends alike.
* `ofPlain?_permuted` — the order of alternatives that cannot be confused does not matter.

## Design Notes

**One direction.**  `Table.Permuted` is symmetric, and the unions that are reached cannot be
confused in either order.  So it is enough that where one conversion ends the other ends alike.

**What decides.**  All that the first union tells about the data is which alternative has taken
it and which have refused it before.  The rest follows in the second union from shapes alone: in
the exact attempt from the shape of the data, and by coercion from the shape as which it would
be taken.
-/

namespace AvroBindings

open Conversion

/-! ## Parts -/

section Parts

variable {part part' : PartConversion} {matching : Matching}

theorem convertItems_follows {item item' : Descriptor} {items : List Json}
    (h : ∀ x ∈ items, Follows Eq (part matching item x) (part' matching item' x)) :
    Follows Eq (convertItems part matching item items)
      (convertItems part' matching item' items) := by
  induction items with
  | nil => exact .return rfl
  | cons x rest ih =>
      refine .bind (h x List.mem_cons_self) fun v v' hv => ?_
      refine .bind (ih fun y hy => h y (List.mem_cons_of_mem _ hy)) fun vs vs' hvs => ?_
      exact .return (by rw [hv, hvs])

theorem convertEntries_follows {value value' : Descriptor} {members : List (String × Json)}
    (h : ∀ member ∈ members,
      Follows Eq (part matching value member.2) (part' matching value' member.2)) :
    Follows Eq (convertEntries part matching value members)
      (convertEntries part' matching value' members) := by
  induction members with
  | nil => exact .return rfl
  | cons member rest ih =>
      refine .bind (h member List.mem_cons_self) fun v v' hv => ?_
      refine .bind (ih fun y hy => h y (List.mem_cons_of_mem _ hy)) fun vs vs' hvs => ?_
      exact .return (by rw [hv, hvs])

theorem convertField_follows {record : String} {members : List (String × Json)}
    {field field' : Field} (hfield : field.Permuted field')
    (h : ∀ plain,
      Follows Eq (part matching field.type plain) (part' matching field'.type plain)) :
    Follows Eq (convertField part matching record members field)
      (convertField part' matching record members field') := by
  rw [convertField, convertField, ← hfield.name, ← hfield.default, ← hfield.type.admitsNull_eq]
  cases (members.lookup field.name).or field.default with
  | some plain => exact (h plain).adapt _ _
  | none =>
      cases field.type.admitsNull with
      | true => exact .return rfl
      | false => exact .refusal _ _

theorem convertFields_follows {record : String} {members : List (String × Json)}
    {fields fields' : List Field} (hfields : List.Forall₂ Field.Permuted fields fields')
    (h : ∀ pair ∈ fields.zip fields', ∀ plain,
      Follows Eq (part matching pair.1.type plain) (part' matching pair.2.type plain)) :
    Follows Eq (convertFields part matching record members fields)
      (convertFields part' matching record members fields') := by
  induction hfields with
  | nil => exact .return rfl
  | @cons field field' rest rest' hfield _ ih =>
      refine .bind (convertField_follows hfield (h (field, field') List.mem_cons_self))
        fun v v' hv => ?_
      refine .bind (ih fun pair hpair => h pair (List.mem_cons_of_mem _ hpair))
        fun vs vs' hvs => ?_
      exact .return (by rw [hv, hvs, hfield.name])

theorem convertRecord_follows {name : String} {doc : Option String}
    {fields fields' : List Field} (hfields : List.Forall₂ Field.Permuted fields fields')
    {members : List (String × Json)}
    (h : ∀ pair ∈ fields.zip fields', ∀ plain,
      Follows Eq (part matching pair.1.type plain) (part' matching pair.2.type plain)) :
    Follows Eq (convertRecord part matching ⟨name, fields, doc⟩ members)
      (convertRecord part' matching ⟨name, fields', doc⟩ members) := by
  have hundeclared :
      (fun member : String × Json => (Record.field? ⟨name, fields, doc⟩ member.1).isNone) =
      fun member => (Record.field? ⟨name, fields', doc⟩ member.1).isNone :=
    funext fun member =>
      Record.isNone_field?_eq (hfields.imp fun _ _ => Field.Permuted.name) member.1
  rw [convertRecord, convertRecord, hundeclared]
  cases members.find? fun member => (Record.field? ⟨name, fields', doc⟩ member.1).isNone with
  | some unknown => exact .refusal _ _
  | none =>
      refine .bind (convertFields_follows hfields h) fun entries entries' heq => ?_
      exact .return (by rw [heq])

end Parts

/-! ## Unions -/

/-- The exact order comes to the references to enums before it comes to another alternative. -/
theorem Table.mem_before_of_refersToEnum {table : Table}
    {alternatives before after : List Descriptor} {ty other : Descriptor}
    (order : table.exactOrder alternatives = before ++ ty :: after)
    (henum : table.refersToEnum ty = false) (hother : other ∈ alternatives)
    (henum' : table.refersToEnum other = true) :
    other ∈ before := by
  have hmem : other ∈ alternatives.filter table.refersToEnum :=
    List.mem_filter.2 ⟨hother, henum'⟩
  rcases List.append_eq_append_iff.1 order with ⟨rest, rfl, -⟩ | ⟨rest, henums, hrest⟩
  · exact List.mem_append_left _ hmem
  · cases rest with
    | nil => rwa [henums, List.append_nil] at hmem
    | cons first rest =>
        -- Otherwise the alternative itself would be among the references to enums.
        obtain ⟨rfl, -⟩ := List.cons.inj hrest
        have hty : ty ∈ alternatives.filter table.refersToEnum := henums ▸ by simp
        simp [henum] at hty

section Union

variable {table table' : Table} {part : PartConversion} {alternatives others : List Descriptor}
  {plain : Json} (hunion : (Descriptor.union alternatives).Permuted (.union others))
  (hpart : ∀ ty ∈ alternatives, ∀ ty' ∈ others, ty.Permuted ty' → ∀ matching,
    Follows Eq (part matching ty plain) (conversion table' matching ty' plain))

include hunion hpart

/-- An alternative refuses what its counterpart refuses. -/
theorem refused_of_counterpart {matching : Matching} {ty' : Descriptor} (hty' : ty' ∈ others)
    (h : ∀ ty ∈ alternatives, ty.Permuted ty' → part.verdicts.refuses matching ty plain) :
    Refused table' matching ty' plain := by
  obtain ⟨ty, hty, hpermuted⟩ := hunion.symm.exists_counterpart hty'
  obtain ⟨e, he⟩ := h ty hty hpermuted.symm
  exact (hpart ty hty ty' hty' hpermuted.symm matching).refused he

/-- What an alternative takes its counterpart takes. -/
theorem exists_taken_counterpart {matching : Matching} {ty : Descriptor} {v : Value}
    (hty : ty ∈ alternatives) (h : part.verdicts.takes matching ty plain v) :
    ∃ ty' ∈ others, ty.Permuted ty' ∧
      (conversion table' matching ty' plain).run = some (.ok v) := by
  obtain ⟨ty', hty', hpermuted⟩ := hunion.exists_counterpart hty
  obtain ⟨v', hv', rfl⟩ := (hpart ty hty ty' hty' hpermuted matching).taken h
  exact ⟨ty', hty', hpermuted, hv'⟩

/-- **Where a union ends, it ends alike with its alternatives in another order**, if these
cannot be confused and the conversions of the alternatives themselves end alike. -/
theorem convertUnion_follows (h : table.Permuted table') (matching : Matching)
    (disjoint : table'.ShapeDisjoint others) :
    Follows Eq (convertUnion table part matching alternatives plain)
      (conversion table' matching (.union others) plain) := by
  intro r hr
  cases r with
  | error e =>
      obtain ⟨hexact, hmatching, -⟩ := convertUnion_eq_error_iff.1 hr
      obtain ⟨e', he'⟩ : Refused table' matching (.union others) plain :=
        refused_union (fun ty' hty' => refused_of_counterpart hunion hpart hty' fun ty hty _ =>
          hexact ty hty) fun ty' hty' =>
            refused_of_counterpart hunion hpart hty' fun ty hty _ => hmatching ty hty
      exact ⟨.error e', he', .refused e e'⟩
  | ok v =>
      refine ⟨.ok v, ?_, .taken rfl⟩
      cases convertUnion_eq_ok_iff.1 hr with
      | @exactly _ before after ty _ _ order refused taken =>
          have hty : ty ∈ alternatives := table.mem_exactOrder.1 (order ▸ by simp)
          obtain ⟨ty', hty', hpermuted, taken'⟩ :=
            exists_taken_counterpart hunion hpart hty taken
          cases henum : table'.refersToEnum ty' with
          | true => exact conversion_union_of_enum matching hty' henum taken'
          | false =>
              -- The references to enums have been tried before, so they refuse the data here
              -- too.
              refine conversion_union_of_shape matching disjoint hty' henum
                (fun other' hother' henum' => .inr ?_) taken'
              refine refused_of_counterpart hunion hpart hother' fun other hother hpermuted' =>
                refused other ?_
              rw [← h.refersToEnum_eq hpermuted] at henum
              rw [← h.refersToEnum_eq hpermuted'] at henum'
              exact Table.mem_before_of_refersToEnum order henum hother henum'
      | @coerced before after ty _ _ coercing inexact refused taken =>
          subst coercing
          have hty : ty ∈ before ++ ty :: after := List.mem_append_right _ List.mem_cons_self
          obtain ⟨ty', hty', -, taken'⟩ := exists_taken_counterpart hunion hpart hty taken
          refine conversion_union_of_coercedShape disjoint
            (fun other' hother' => ?_) hty' taken'
          exact refused_of_counterpart hunion hpart hother' fun other hother _ =>
            inexact other hother

end Union

/-! ## One step -/

section Step

variable {table table' : Table} {part : PartConversion} {matching : Matching}

/-- **Where a step ends, the conversion at the permuted type ends alike**, if those of the parts
do. -/
theorem convertStep_follows (h : table.Permuted table') {ty ty' : Descriptor}
    (hty : ty.Permuted ty') (disjoint : table'.UnionsDisjoint ty') (plain : Json)
    (hpart : ∀ matching {ty ty' : Descriptor} plain, ty.Permuted ty' →
      table'.UnionsDisjoint ty' →
      Follows Eq (part matching ty plain) (conversion table' matching ty' plain)) :
    Follows Eq (convertStep table part matching ty plain)
      (conversion table' matching ty' plain) := by
  suffices hstep : Follows Eq (convertStep table part matching ty plain)
      (convertStep table' (conversion table') matching ty' plain) by
    intro r hr
    rw [conversion_eq_step]
    exact hstep r hr
  cases ty with
  | primitive kind =>
      cases hty
      exact fun r hr => ⟨r, hr, .refl r⟩
  | optional inner =>
      cases hty with
      | optional hinner =>
          by_cases present : plain = .null
          · subst present
            exact .return rfl
          · rw [convertStep_optional present, convertStep_optional present]
            exact hpart matching plain hinner (disjoint.mono fun _ => .optional)
  | union alternatives =>
      cases ty' with
      | union others =>
          have hparts : ∀ ty ∈ alternatives, ∀ ty' ∈ others, ty.Permuted ty' → ∀ matching,
              Follows Eq (part matching ty plain) (conversion table' matching ty' plain) :=
            fun ty _ ty' hmember hty matching =>
              hpart matching plain hty (disjoint.mono fun _ => .union hmember)
          have hunion := convertUnion_follows hty hparts h matching (disjoint others (.refl _))
          intro r hr
          rw [← conversion_eq_step]
          exact hunion r hr
      | _ => cases hty
  | list item =>
      cases hty with
      | list hitem =>
          cases plain with
          | array items =>
              refine .bind (convertItems_follows fun x _ => ?_) fun vs vs' heq =>
                .return (by rw [heq])
              exact hpart matching x hitem (disjoint.mono fun _ => .list)
          | _ => exact .refusal _ _
  | map value =>
      cases hty with
      | map hvalue =>
          cases plain with
          | object members =>
              refine .bind (convertEntries_follows fun member _ => ?_) fun vs vs' heq =>
                .return (by rw [heq])
              exact hpart matching member.2 hvalue (disjoint.mono fun _ => .map)
          | _ => exact .refusal _ _
  | named name =>
      cases hty
      show Follows Eq (convertNamed table part matching name plain)
        (convertNamed table' (conversion table') matching name plain)
      unfold convertNamed
      rcases rel_cases (h name) with ⟨hnone, hnone'⟩ | ⟨type, type', hfound, hfound', htype⟩
      · rw [hnone, hnone']
        exact .refusal _ _
      · rw [hfound, hfound']
        cases htype with
        | enum e => exact fun r hr => ⟨r, hr, .refl r⟩
        | record hfields =>
            cases plain with
            | object members =>
                refine convertRecord_follows hfields fun pair hpair plain => ?_
                have hfield := (List.forall₂_zip hfields hpair).type
                exact hpart matching plain hfield
                  (disjoint.mono fun _ => .field hfound' (List.of_mem_zip hpair).2)
            | _ => exact .refusal _ _

end Step

/-! ## Whole conversions -/

section Run

variable {table table' : Table} (h : table.Permuted table')

include h

/-- **Where a conversion with fuel ends, the conversion at the permuted type ends alike.** -/
theorem convertWithin_follows (fuel : Nat) (matching : Matching) {ty ty' : Descriptor}
    (plain : Json) (hty : ty.Permuted ty') (disjoint : table'.UnionsDisjoint ty') :
    Follows Eq (convertWithin table fuel matching ty plain)
      (conversion table' matching ty' plain) := by
  induction fuel generalizing matching ty ty' plain with
  | zero => exact .unfinished
  | succ fuel ih => exact convertStep_follows h hty disjoint plain ih

/-- The same of conversions with fuel enough. -/
theorem conversion_follows (matching : Matching) {ty ty' : Descriptor} (plain : Json)
    (hty : ty.Permuted ty') (disjoint : table'.UnionsDisjoint ty') :
    Follows Eq (conversion table matching ty plain) (conversion table' matching ty' plain) :=
  convertWithin_follows h _ matching plain hty disjoint

/-- **The order of alternatives that cannot be confused does not matter.**  Both conversions
give the same value, or both end with a fault, or both never end. -/
theorem ofPlain?_permuted {ty ty' : Descriptor} (hty : ty.Permuted ty')
    (disjoint : table.UnionsDisjoint ty) (plain : Json) :
    (∃ v, Value.ofPlain? table ty plain = some (.ok v) ∧
        Value.ofPlain? table' ty' plain = some (.ok v)) ∨
      (∃ e e', Value.ofPlain? table ty plain = some (.error e) ∧
        Value.ofPlain? table' ty' plain = some (.error e')) ∨
      (Value.ofPlain? table ty plain = none ∧ Value.ofPlain? table' ty' plain = none) := by
  rw [Value.ofPlain?_eq_conversion, Value.ofPlain?_eq_conversion]
  have forth := conversion_follows h .coercing plain hty (disjoint.permuted h hty)
  have back := conversion_follows h.symm .coercing plain hty.symm disjoint
  cases hrun : (conversion table .coercing ty plain).run with
  | none =>
      refine .inr (.inr ⟨rfl, ?_⟩)
      rw [Option.eq_none_iff_forall_ne_some]
      intro r hr
      obtain ⟨r', hr', -⟩ := back r hr
      rw [hrun] at hr'
      contradiction
  | some r =>
      obtain ⟨r', hr', halike⟩ := forth r hrun
      cases halike with
      | refused e e' => exact .inr (.inl ⟨e, e', rfl, hr'⟩)
      | taken heq => exact .inl ⟨_, rfl, heq ▸ hr'⟩

end Run

/-- `Table.nodes` with the alternatives of the kind in another order. -/
def Table.nodesTurned : Table :=
  ⟨[("t.Choice", .enum ⟨"t.Choice", ["EnumA", "EnumB"], none⟩),
    ("t.Node", .record ⟨"t.Node",
      [⟨"kind", .union [.primitive .string, .named "t.Choice", .primitive .float], none, none⟩,
        ⟨"weight", .primitive .float, some (.number (.int 0)), none⟩,
        ⟨"next", .optional (.named "t.Node"), none, none⟩], none⟩)]⟩

theorem permuted_nodesTurned : Table.nodes.Permuted .nodesTurned := by
  intro name
  by_cases hname : name ∈ ["t.Choice", "t.Node"]
  · rcases List.mem_pair.1 hname with rfl | rfl
    · exact .some (.enum _)
    · have hkind :
          (Descriptor.union [.primitive .float, .primitive .string, .named "t.Choice"]).Permuted
          (.union [.primitive .string, .named "t.Choice", .primitive .float]) :=
        .of_perm (List.perm_append_comm : List.Perm ([_] ++ [_, _]) ([_, _] ++ [_]))
      exact .some (.record (.cons ⟨rfl, hkind, rfl, rfl⟩ (.cons ⟨rfl, .refl _, rfl, rfl⟩
        (.cons ⟨rfl, .refl _, rfl, rfl⟩ .nil))))
  · have hnone : Table.nodes.find? name = none := Entries.lookup_eq_none_iff.2 hname
    have hnone' : Table.nodesTurned.find? name = none := Entries.lookup_eq_none_iff.2 hname
    rw [hnone, hnone']
    exact .none

/-- A node is no null, wherever null stands.  Its kind is an integer and its weight is left to a
default that is one, so the exact attempts refuse it in either order. -/
theorem ofPlain?_permuted_nodes :
    Table.nodes.Permuted .nodesTurned ∧
      (Descriptor.union [.primitive .null, .named "t.Node"]).Permuted
        (.union [.named "t.Node", .primitive .null]) ∧
      Table.nodes.UnionsDisjoint (.union [.primitive .null, .named "t.Node"]) ∧
      Value.ofPlain? .nodesTurned (.union [.named "t.Node", .primitive .null])
        (.object [("kind", .number (.int 3))]) =
        some (.ok (.node (.float (.ofInt 3)))) := by
  have hty : (Descriptor.union [.primitive .null, .named "t.Node"]).Permuted
      (.union [.named "t.Node", .primitive .null]) := .of_perm (.swap _ _ _)
  have disjoint : Table.nodes.UnionsDisjoint (.union [.primitive .null, .named "t.Node"]) := by
    have hunions :
        ∀ alternatives ∈ Table.nodes.unions (.union [.primitive .null, .named "t.Node"]),
        Table.nodes.ShapeDisjoint alternatives := by decide
    exact fun alternatives hreach => hunions alternatives hreach.mem_unions
  have hnode : Value.ofPlain? .nodes (.union [.primitive .null, .named "t.Node"])
      (.object [("kind", .number (.int 3))]) = some (.ok (.node (.float (.ofInt 3)))) := rfl
  refine ⟨permuted_nodesTurned, hty, disjoint, ?_⟩
  rcases ofPlain?_permuted permuted_nodesTurned hty disjoint
    (.object [("kind", .number (.int 3))]) with
    ⟨v, hv, hv'⟩ | ⟨e, e', he, -⟩ | ⟨hnone, -⟩
  · exact hv'.trans (hv.symm.trans hnode)
  · rw [hnode] at he
    cases he
  · rw [hnode] at hnone
    contradiction

end AvroBindings
