import AvroBindings.Proofs.Convert.Typing

/-!
# Exact matching is a part of coercion

What an exact attempt takes is taken as the same value when numbers are coerced.  So a value
found in the exact pass of a union is the one that the union has by coercion, however deep
unions, records and defaults lie inside each other.

## Main Statements

* `Takes.coercing` — one step: what is taken from parts that are taken alike.
* `convertWithin_coercing` — conversion with the same fuel.
* `exact_restricts_coercing` — an exact attempt that succeeds gives the value of the conversion
  that coerces.

## Design Notes

**Unions.**  Coercion could find another alternative first.  It does not, because a union that
coerces makes the same exact pass before, and what this pass finds is not looked for again.  The
exact pass converts its alternatives exactly in both cases, so nothing has to be known of how
they coerce.

**Termination.**  Nothing is assumed to end.  A union that succeeds in its exact pass never
starts the other one, so the fuel of the exact attempt is enough for the conversion that
coerces.
-/

namespace AvroBindings

open Conversion

/-! ## One step -/

theorem Primitive.ofPlain_coercing {kind : Primitive} {matching : Matching} {plain : Json}
    {v : Value} (h : kind.ofPlain matching plain = .ok v) :
    kind.ofPlain .coercing plain = .ok v := by
  cases matching with
  | coercing => exact h
  | exact =>
      unfold Primitive.ofPlain at h ⊢
      split at h
      case h_5 => simp at h
      all_goals exact h

theorem Verdicts.TakesField.coercing {verdicts verdicts' : Verdicts} {matching : Matching}
    {members : List (String × Json)} {field : Field} {v : Value}
    (takes : ∀ ty plain v, verdicts.takes matching ty plain v →
      verdicts'.takes .coercing ty plain v)
    (h : verdicts.TakesField matching members field v) :
    verdicts'.TakesField .coercing members field v := by
  unfold Verdicts.TakesField at h ⊢
  split at h
  · exact takes _ _ _ h
  · exact h

/-- **What a step takes it also takes by coercion**, if its parts do. -/
theorem Takes.coercing {table : Table} {verdicts : Verdicts} {matching : Matching}
    {ty : Descriptor} {plain : Json} {v : Value}
    (takes : ∀ ty plain v, verdicts.takes matching ty plain v →
      verdicts.takes .coercing ty plain v)
    (h : Takes table verdicts matching ty plain v) :
    Takes table verdicts .coercing ty plain v := by
  cases h with
  | primitive h => exact .primitive (Primitive.ofPlain_coercing h)
  | absent => exact .absent
  | present present h => exact .present present (takes _ _ _ h)
  -- The exact pass comes first in both: what it finds, and what it has refused before, is the
  -- same.
  | exactly order refused h => exact .exactly order refused h
  | coerced _ inexact refused h => exact .coerced rfl inexact refused h
  | list h => exact .list (h.imp fun _ _ => takes _ _ _)
  | map h => exact .map (h.imp fun _ _ hentry => ⟨hentry.1, takes _ _ _ hentry.2⟩)
  | enum found h => exact .enum found h
  | record found declared h =>
      exact .record found declared (h.imp fun _ _ hentry => ⟨hentry.1, hentry.2.coercing takes⟩)

/-! ## Conversion -/

/-- **What is taken is taken as the same value when numbers are coerced**, with the same
fuel. -/
theorem convertWithin_coercing {table : Table} {fuel : Nat} {matching : Matching}
    {ty : Descriptor} {plain : Json} {v : Value}
    (h : (convertWithin table fuel matching ty plain).run = some (.ok v)) :
    (convertWithin table fuel .coercing ty plain).run = some (.ok v) := by
  induction fuel generalizing ty plain v with
  | zero => simp [convertWithin] at h
  | succ fuel ih =>
      exact convertStep_eq_ok_iff.2 ((convertStep_eq_ok_iff.1 h).coercing fun _ _ _ => ih)

theorem conversion_coercing {table : Table} {matching : Matching} {ty : Descriptor}
    {plain : Json} {v : Value} (h : (conversion table matching ty plain).run = some (.ok v)) :
    (conversion table .coercing ty plain).run = some (.ok v) :=
  convertWithin_coercing h

/-- **An exact attempt that succeeds gives the value of the conversion that coerces.**  Whatever
fuel it took to succeed is enough for the conversion that coerces, and the value is the one that
plain data stands for. -/
theorem exact_restricts_coercing {table : Table} {fuel : Nat} {ty : Descriptor} {plain : Json}
    {v : Value} (h : (convertWithin table fuel .exact ty plain).run = some (.ok v)) :
    (convertWithin table fuel .coercing ty plain).run = some (.ok v) ∧
    Value.ofPlain? table ty plain = some (.ok v) := by
  have hcoercing := convertWithin_coercing h
  exact ⟨hcoercing, conversion_eq_of_convertWithin hcoercing⟩

/-- Weights, counts and nodes in a row. -/
def Descriptor.tallies : Descriptor :=
  .list (.union [.primitive .float, .primitive .integer, .optional (.named "t.Node")])

/-- A count stays one although a weight could be made of it, and so does the symbol in the node
beside it. -/
theorem exact_restricts_coercing_tallies :
    let plain : Json := .array [.number (.int 3),
      .object [("kind", .string "EnumB"), ("weight", .number (.float (.ofInt 1)))]]
    let v : Value :=
      .list [.int 3, .record "t.Node" [("kind", .enum "EnumB"), ("weight", .float (.ofInt 1)),
        ("next", .null)]]
    (convertWithin Table.nodes 6 .exact .tallies plain).run = some (.ok v) ∧
      (convertWithin Table.nodes 6 .coercing .tallies plain).run = some (.ok v) ∧
      Value.ofPlain? Table.nodes .tallies plain = some (.ok v) := by
  intro plain v
  have h : (convertWithin Table.nodes 6 .exact .tallies plain).run = some (.ok v) := rfl
  exact ⟨h, exact_restricts_coercing h⟩

end AvroBindings
