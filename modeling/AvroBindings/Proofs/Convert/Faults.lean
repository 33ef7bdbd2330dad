import AvroBindings.Proofs.Convert.Ends

/-!
# The faults of conversion

Which faults a conversion can end with, told by the faults of its parts.

## Main Definitions

* `Conversion.FaultsOnly` — every fault that a conversion ends with satisfies a condition.
* `Table.Misses` — what is unsupported about a fault is a reference that was reached and is not
  in the table.

## Main Statements

* `Conversion.FaultsOnly.bind`, `Conversion.FaultsOnly.adapt` — the faults of conversions in
  sequence and in a field.
* `convertStep_misses` — a step adds no fault but its own.
* `ofPlain?_misses` — only a reference that was reached and is not in the table is unsupported.
-/

namespace AvroBindings

open Conversion

namespace Conversion

variable {α β : Type} {P : ConversionError → Prop}

/-- Every fault that the conversion ends with satisfies a condition. -/
def FaultsOnly (P : ConversionError → Prop) (x : Conversion α) : Prop :=
  ∀ e, x.run = some (.error e) → P e

theorem FaultsOnly.return (a : α) : FaultsOnly P (pure a) := by
  intro e h
  simp at h

theorem FaultsOnly.refusal {e : ConversionError} (h : P e) :
    FaultsOnly P (throw e : Conversion α) := by
  intro e' h'
  obtain rfl := Except.error.inj (Option.some.inj h')
  exact h

theorem FaultsOnly.unfinished : FaultsOnly P (unfinished : Conversion α) := by
  intro e h
  simp at h

theorem FaultsOnly.bind {x : Conversion α} {f : α → Conversion β} (hx : FaultsOnly P x)
    (hf : ∀ a, FaultsOnly P (f a)) : FaultsOnly P (x >>= f) := by
  intro e h
  rw [ExceptT.run_bind] at h
  cases hrun : x.run with
  | none => simp [hrun] at h
  | some r =>
      rw [hrun] at h
      cases r with
      | error e' =>
          obtain rfl : e' = e := by simpa using h
          exact hx e' hrun
      | ok a => exact hf a e (by simpa using h)

theorem FaultsOnly.adapt {Q : ConversionError → Prop} {x : Conversion α}
    {f : ConversionError → ConversionError} (hf : ∀ e, P e → Q (f e)) (hx : FaultsOnly P x) :
    FaultsOnly Q (ExceptT.adapt f x) := by
  intro e h
  rw [run_adapt] at h
  obtain ⟨r, hr, herror⟩ := Option.map_eq_some_iff.1 h
  cases r with
  | error e' =>
      obtain rfl := Except.error.inj herror
      exact hf e' (hx e' hr)
  | ok a => simp [Except.mapError] at herror

end Conversion

/-! ## Steps -/

section Steps

variable {table : Table} {part : PartConversion} {matching : Matching}
  {P : ConversionError → Prop}

theorem convertItems_faultsOnly {item : Descriptor} {items : List Json}
    (h : ∀ x ∈ items, FaultsOnly P (part matching item x)) :
    FaultsOnly P (convertItems part matching item items) := by
  induction items with
  | nil => exact .return _
  | cons x rest ih =>
      refine .bind (h x List.mem_cons_self) fun v => ?_
      exact .bind (ih fun y hy => h y (List.mem_cons_of_mem _ hy)) fun vs => .return _

theorem convertEntries_faultsOnly {value : Descriptor} {members : List (String × Json)}
    (h : ∀ member ∈ members, FaultsOnly P (part matching value member.2)) :
    FaultsOnly P (convertEntries part matching value members) := by
  induction members with
  | nil => exact .return _
  | cons member rest ih =>
      refine .bind (h member List.mem_cons_self) fun v => ?_
      exact .bind (ih fun y hy => h y (List.mem_cons_of_mem _ hy)) fun vs => .return _

theorem convertFields_faultsOnly {record : String} {members : List (String × Json)}
    {fields : List Field}
    (h : ∀ field ∈ fields, FaultsOnly P (convertField part matching record members field)) :
    FaultsOnly P (convertFields part matching record members fields) := by
  induction fields with
  | nil => exact .return _
  | cons field rest ih =>
      refine .bind (h field List.mem_cons_self) fun v => ?_
      exact .bind (ih fun f hf => h f (List.mem_cons_of_mem _ hf)) fun vs => .return _

/-- A union forgets the faults of its alternatives, and has one of its own. -/
theorem convertUnion_faultsOnly {alternatives : List Descriptor} {plain : Json}
    (h : P (.noAlternative plain (alternatives.map Descriptor.text))) :
    FaultsOnly P (convertUnion table part matching alternatives plain) := by
  unfold convertUnion
  dsimp only
  split
  · exact .unfinished
  · exact .return _
  · split
    · exact .refusal h
    · split
      · exact .unfinished
      · exact .return _
      · exact .refusal h

end Steps

/-! ## References that are not found -/

/-- **What is unsupported about a fault** of a conversion at a type **is missing**: the
conversion has come to a reference to it, and it is not in the table. -/
def Table.Misses (table : Table) (ty : Descriptor) (e : ConversionError) : Prop :=
  ∀ name, e.cause = .unsupported name → table.Reaches ty (.named name) ∧ table.find? name = none

namespace Table.Misses

variable {table : Table} {ty : Descriptor} {e : ConversionError}

/-- A fault for another reason. -/
theorem of_ne (h : ∀ name, e.cause ≠ .unsupported name) : table.Misses ty e :=
  fun name hcause => absurd hcause (h name)

theorem of_call {matching : Matching} {plain : Json} {call : Call}
    (hcall : call ∈ table.calls matching ty plain) (h : table.Misses call.type e) :
    table.Misses ty e := by
  intro name hcause
  obtain ⟨hreach, hnone⟩ := h name hcause
  exact ⟨.of_call hcall hreach, hnone⟩

/-- A fault in a field has the same cause. -/
theorem inField (record field : String) (h : table.Misses ty e) :
    table.Misses ty (.inField record field e) := h

end Table.Misses

theorem Primitive.ofPlain_eq_error {kind : Primitive} {matching : Matching} {plain : Json}
    {e : ConversionError} (h : kind.ofPlain matching plain = .error e) :
    e = .mismatch kind.pythonName plain := by
  unfold ofPlain at h
  split at h
  · contradiction
  · contradiction
  · split at h
    · contradiction
    · exact (Except.error.inj h).symm
  · contradiction
  · split at h
    · contradiction
    · exact (Except.error.inj h).symm
  · contradiction
  · exact (Except.error.inj h).symm

theorem Enumeration.ofPlain_eq_error {enum : Enumeration} {reference : String} {plain : Json}
    {e : ConversionError} (h : enum.ofPlain reference plain = .error e) :
    e = .mismatch reference plain ∨ ∃ symbol, e = .unknownSymbol enum.name symbol := by
  cases plain with
  | string symbol =>
      simp only [ofPlain] at h
      split at h
      · contradiction
      · exact .inr ⟨symbol, (Except.error.inj h).symm⟩
  | _ => exact .inl (Except.error.inj h).symm

section Missing

variable {table : Table} {part : PartConversion} {matching : Matching}

theorem convertField_misses {ty : Descriptor} {record : String} {members : List (String × Json)}
    {field : Field}
    (h : ∀ plain, (members.lookup field.name).or field.default = some plain →
      FaultsOnly (table.Misses ty) (part matching field.type plain)) :
    FaultsOnly (table.Misses ty) (convertField part matching record members field) := by
  unfold convertField
  cases hplain : (members.lookup field.name).or field.default with
  | some plain => exact (h plain hplain).adapt fun e he => he.inField _ _
  | none =>
      cases field.type.admitsNull with
      | true => exact .return _
      | false => exact .refusal (.of_ne (by simp [ConversionError.cause]))

theorem convertNamed_misses {name : String} {plain : Json}
    (h : ∀ call ∈ table.calls matching (.named name) plain,
      FaultsOnly (table.Misses (.named name)) (part call.matching call.type call.plain)) :
    FaultsOnly (table.Misses (.named name)) (convertNamed table part matching name plain) := by
  unfold convertNamed
  cases hfind : table.find? name with
  | none =>
      refine .refusal fun other hcause => ?_
      obtain rfl : name = other := ConversionError.unsupported.inj hcause
      exact ⟨.refl _, hfind⟩
  | some type =>
      cases type with
      | enum enum =>
          intro e he
          rcases Enumeration.ofPlain_eq_error (Option.some.inj he) with rfl | ⟨symbol, rfl⟩
          · exact .of_ne (by simp [ConversionError.cause])
          · exact .of_ne (by simp [ConversionError.cause])
      | record r =>
          cases plain with
          | object members =>
              change FaultsOnly _ (convertRecord part matching r members)
              unfold convertRecord
              cases members.find? fun member => (r.field? member.1).isNone with
              | some unknown => exact .refusal (.of_ne (by simp [ConversionError.cause]))
              | none =>
                  refine .bind (convertFields_faultsOnly fun field hfield => ?_) fun vs =>
                    .return _
                  refine convertField_misses fun plain hplain => ?_
                  refine h ⟨matching, field.type, plain⟩ (Table.mem_calls_named.2 ?_)
                  exact ⟨r, members, field, plain, hfind, rfl, hfield, hplain, rfl⟩
          | _ => exact .refusal (.of_ne (by simp [ConversionError.cause]))

/-- **A step misses only what its calls miss**, or its own reference. -/
theorem convertStep_misses {ty : Descriptor} {plain : Json}
    (h : ∀ call ∈ table.calls matching ty plain,
      FaultsOnly (table.Misses call.type) (part call.matching call.type call.plain)) :
    FaultsOnly (table.Misses ty) (convertStep table part matching ty plain) := by
  have hcalls : ∀ call ∈ table.calls matching ty plain,
      FaultsOnly (table.Misses ty) (part call.matching call.type call.plain) :=
    fun call hcall e he => (h call hcall e he).of_call hcall
  have hmismatch : table.Misses ty (.mismatch ty.text plain) :=
    .of_ne (by simp [ConversionError.cause])
  cases ty with
  | primitive kind =>
      intro e he
      rw [Primitive.ofPlain_eq_error (Option.some.inj he)]
      exact .of_ne (by simp [ConversionError.cause])
  | optional inner =>
      cases plain with
      | null => exact .return _
      | _ => exact hcalls ⟨matching, inner, _⟩ (List.mem_singleton_self _)
  | union alternatives =>
      exact convertUnion_faultsOnly (.of_ne (by simp [ConversionError.cause]))
  | list item =>
      cases plain with
      | array items =>
          refine .bind (convertItems_faultsOnly fun x hx => ?_) fun vs => .return _
          exact hcalls ⟨matching, item, x⟩ (List.mem_map_of_mem hx)
      | _ => exact .refusal hmismatch
  | map value =>
      cases plain with
      | object members =>
          refine .bind (convertEntries_faultsOnly fun member hmember => ?_) fun vs => .return _
          exact hcalls ⟨matching, value, member.2⟩ (List.mem_map_of_mem hmember)
      | _ => exact .refusal hmismatch
  | named name => exact convertNamed_misses hcalls

theorem convertWithin_misses (table : Table) (fuel : Nat) (matching : Matching)
    (ty : Descriptor) (plain : Json) :
    FaultsOnly (table.Misses ty) (convertWithin table fuel matching ty plain) := by
  induction fuel generalizing matching ty plain with
  | zero => exact .unfinished
  | succ fuel ih => exact convertStep_misses fun call _ => ih call.matching call.type call.plain

end Missing

/-- **Only what is missing is unsupported**: a conversion that ends with an unsupported name has
come to a reference of that name, and the table has no entry for it. -/
theorem ofPlain?_misses {table : Table} {ty : Descriptor} {plain : Json} {e : ConversionError}
    (h : Value.ofPlain? table ty plain = some (.error e)) : table.Misses ty e :=
  convertWithin_misses table _ _ ty plain e h

end AvroBindings
