import AvroBindings.Proofs.Convert.Fuel
import AvroBindings.Proofs.Table.Reaches

/-!
# Where conversion ends

Conversion goes on for ever only through defaults: it ends wherever the conversions of the
defaults end that it can reach.

## Main Definitions

* `Table.Terminates` — every conversion with a table ends.

## Main Statements

* `conversion_finishes_of_defaults` — conversion ends where the defaults that are reached do.
* `Table.terminates_of_starts` — a table on which the finitely many conversions of its defaults
  end is one on which every conversion ends.
-/

namespace AvroBindings

open Conversion

/-- What is reached from the type of a call is reached from the type of the step. -/
theorem Table.Reaches.of_call {table : Table} {matching : Matching} {ty target : Descriptor}
    {plain : Json} {call : Call} (hcall : call ∈ table.calls matching ty plain)
    (h : table.Reaches call.type target) :
    table.Reaches ty target := by
  cases ty with
  | primitive kind => simp [Table.calls] at hcall
  | optional inner =>
      cases plain with
      | null => simp [Table.calls] at hcall
      | _ =>
          obtain rfl := List.mem_singleton.1 hcall
          exact .optional h
  | union alternatives =>
      obtain ⟨alternative, hmem, hcalls⟩ := List.mem_flatMap.1 hcall
      have htype : call.type = alternative := by
        rcases List.mem_pair.1 hcalls with rfl | rfl <;> rfl
      exact .union hmem (htype ▸ h)
  | list item =>
      cases plain with
      | array items =>
          obtain ⟨x, -, rfl⟩ := List.mem_map.1 hcall
          exact .list h
      | _ => simp [Table.calls] at hcall
  | map value =>
      cases plain with
      | object members =>
          obtain ⟨member, -, rfl⟩ := List.mem_map.1 hcall
          exact .map h
      | _ => simp [Table.calls] at hcall
  | named name =>
      obtain ⟨r, members, field, part, found, -, hfield, -, rfl⟩ :=
        Table.mem_calls_named.1 hcall
      exact .field found hfield h

/-- **Conversion ends where the defaults that are reached do.**  Every other call makes the data
less deep, or keeps it and makes the type less high. -/
theorem conversion_finishes_of_defaults {table : Table} {ty : Descriptor}
    (defaults : ∀ name r field default, table.Reaches ty (.named name) →
      table.find? name = some (.record r) → field ∈ r.fields → field.default = some default →
      ∀ matching, Finishes (conversion table matching field.type default))
    (matching : Matching) (plain : Json) : Finishes (conversion table matching ty plain) := by
  have hstep : Finishes (convertStep table (conversion table) matching ty plain) := by
    refine convertStep_finishes fun call hcall => ?_
    have hdefaults : ∀ name r field default, table.Reaches call.type (.named name) →
        table.find? name = some (.record r) → field ∈ r.fields → field.default = some default →
        ∀ matching, Finishes (conversion table matching field.type default) :=
      fun name r field default hreach => defaults name r field default (.of_call hcall hreach)
    rcases Table.calls_cases hcall with ⟨hplain, hheight⟩ | ⟨hdepth, -⟩ |
      ⟨name, r, rfl, found, field, hfield, hdefault, htype⟩
    · have hless : Prod.Lex (· < ·) (· < ·) (call.plain.depth, call.type.height)
          (plain.depth, ty.height) := by
        rw [hplain]
        exact .right _ hheight
      exact conversion_finishes_of_defaults hdefaults call.matching call.plain
    · have hless : Prod.Lex (· < ·) (· < ·) (call.plain.depth, call.type.height)
          (plain.depth, ty.height) :=
        .left _ _ hdepth
      exact conversion_finishes_of_defaults hdefaults call.matching call.plain
    · exact htype ▸ defaults name r field call.plain (.refl _) found hfield hdefault
        call.matching
  obtain ⟨r, hr⟩ := hstep
  exact ⟨r, (conversion_eq_step table matching ty plain).trans hr⟩
termination_by (plain.depth, ty.height)
decreasing_by all_goals exact hless

/-! ## Tables -/

/-- Every conversion with the table ends, with a value or with a fault. -/
def Table.Terminates (table : Table) : Prop :=
  ∀ ty plain, ∃ r, Value.ofPlain? table ty plain = some r

/-- **A table terminates if its defaults do.**  They are finitely many, so this can be tried
out. -/
theorem Table.terminates_of_starts {table : Table}
    (h : ∀ start ∈ table.starts,
      Finishes (conversion table start.matching start.type start.plain)) :
    table.Terminates := by
  intro ty plain
  refine conversion_finishes_of_defaults
    (fun name r field default _ found hfield hdefault matching => ?_) .coercing plain
  have hstart : Call.mk matching field.type default ∈ table.starts :=
    Table.mem_starts_iff.2 ⟨field, Table.mem_fields found hfield, hdefault, rfl⟩
  exact h _ hstart

end AvroBindings
