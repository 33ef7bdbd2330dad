import AvroBindings.Proofs.Convert.Takes
import AvroBindings.Proofs.Json.Parts

/-!
# Enough fuel

A conversion that ends with some fuel ends with the fuel that `conversionFuel` computes, so
conversion is a fixed point of its step and the fuel can be forgotten.

## Main Definitions

* `conversion` — conversion with all the fuel it needs.
* `Table.starts` — the conversions of defaults that a table can start.

## Main Statements

* `conversion_eq_of_convertWithin` — no amount of fuel finishes what `conversion` does not.
* `conversion_eq_step` — conversion is one step that leaves the parts to conversion.
* `conversion_induction` — what every step keeps holds of every value taken.

## Design Notes

**The bound.**  A call that does not start a default makes the data less deep, or keeps the data
and makes the type less high.  Along a chain of calls that ends, no default is started twice:
the second start would need as much fuel as the first.  So the number of starts that finish
sooner than a call counts down from start to start, and it is the leading part of the measure in
`settled_budget`.
-/

namespace AvroBindings

open Conversion

/-- Conversion with all the fuel it needs. -/
def conversion (table : Table) : PartConversion :=
  fun matching ty plain => convertWithin table (conversionFuel table ty plain) matching ty plain

theorem Value.ofPlain?_eq_conversion (table : Table) (ty : Descriptor) (plain : Json) :
    Value.ofPlain? table ty plain = (conversion table .coercing ty plain).run := rfl

/-! ## More fuel -/

theorem convertWithin_refines_succ (table : Table) (fuel : Nat) (matching : Matching)
    (ty : Descriptor) (plain : Json) :
    Refines (convertWithin table fuel matching ty plain)
      (convertWithin table (fuel + 1) matching ty plain) := by
  induction fuel generalizing matching ty plain with
  | zero => exact Refines.unfinished _
  | succ fuel ih =>
      exact convertStep_refines fun call _ => ih call.matching call.type call.plain

/-- More fuel keeps a finished result. -/
theorem convertWithin_mono {table : Table} {fuel fuel' : Nat} {matching : Matching}
    {ty : Descriptor} {plain : Json} {r : Except ConversionError Value} (hle : fuel ≤ fuel')
    (h : (convertWithin table fuel matching ty plain).run = some r) :
    (convertWithin table fuel' matching ty plain).run = some r := by
  induction hle with
  | refl => exact h
  | step _ ih => exact convertWithin_refines_succ _ _ _ _ _ r ih

/-- Whether a call ends with some fuel. -/
def Call.settled (table : Table) (fuel : Nat) (call : Call) : Bool :=
  (convertWithin table fuel call.matching call.type call.plain).run.isSome

theorem Call.settled_iff {table : Table} {fuel : Nat} {call : Call} :
    call.settled table fuel = true ↔
      ∃ r, (convertWithin table fuel call.matching call.type call.plain).run = some r :=
  Option.isSome_iff_exists

theorem Call.settled_mono {table : Table} {fuel fuel' : Nat} {call : Call} (hle : fuel ≤ fuel')
    (h : call.settled table fuel = true) : call.settled table fuel' = true := by
  obtain ⟨r, hr⟩ := Call.settled_iff.1 h
  exact Call.settled_iff.2 ⟨r, convertWithin_mono hle hr⟩

@[simp] theorem Call.settled_zero (table : Table) (call : Call) :
    call.settled table 0 = false := rfl

/-- A call that ends has a least amount of fuel with which it does. -/
theorem Call.exists_least {table : Table} {fuel : Nat} {call : Call}
    (h : call.settled table fuel = true) :
    ∃ least, least + 1 ≤ fuel ∧ call.settled table (least + 1) = true ∧
    call.settled table least = false := by
  induction fuel with
  | zero => simp at h
  | succ fuel ih =>
      cases hfuel : call.settled table fuel with
      | true =>
          obtain ⟨least, hle, hsettled, hnot⟩ := ih hfuel
          exact ⟨least, by omega, hsettled, hnot⟩
      | false => exact ⟨fuel, Nat.le_refl _, h, hfuel⟩

/-- Two amounts of fuel that both suffice give one result. -/
theorem convertWithin_agree {table : Table} {fuel fuel' : Nat} {matching : Matching}
    {ty : Descriptor} {plain : Json} {r : Except ConversionError Value}
    (h : (convertWithin table fuel matching ty plain).run = some r)
    (h' : Call.settled table fuel' ⟨matching, ty, plain⟩ = true) :
    (convertWithin table fuel' matching ty plain).run = some r := by
  obtain ⟨r', hr'⟩ := Call.settled_iff.1 h'
  have hr := convertWithin_mono (Nat.le_max_left fuel fuel') h
  have hr'' := convertWithin_mono (Nat.le_max_right fuel fuel') hr'
  obtain rfl : r = r' := Option.some.inj (hr.symm.trans hr'')
  exact hr'

/-! ## The starts of defaults -/

/-- The conversions of defaults that a table can start, one for each way of matching. -/
def Table.starts (table : Table) : List Call :=
  table.fields.flatMap fun field =>
    match field.default with
    | some plain => [⟨.exact, field.type, plain⟩, ⟨.coercing, field.type, plain⟩]
    | none => []

theorem Table.length_starts (table : Table) :
    table.starts.length = 2 * table.defaults.length := by
  unfold Table.starts Table.defaults
  induction table.fields with
  | nil => rfl
  | cons field rest ih =>
      rw [List.flatMap_cons, List.length_append, ih]
      cases hdefault : field.default with
      | none => simp [hdefault]
      | some plain => simp [hdefault]; omega

/-- The starts are the defaults of fields, at the types of their fields. -/
theorem Table.mem_starts_iff {table : Table} {start : Call} :
    start ∈ table.starts ↔
      ∃ field ∈ table.fields, field.default = some start.plain ∧ field.type = start.type := by
  unfold Table.starts
  rw [List.mem_flatMap]
  refine exists_congr fun field => and_congr_right fun _ => ?_
  obtain ⟨matching, ty, plain⟩ := start
  cases field.default with
  | none => simp
  | some other => cases matching <;> simp [eq_comm, and_comm]

/-- A field of a record that a look-up finds is a field of the table. -/
theorem Table.mem_fields {table : Table} {name : String} {r : Record} {field : Field}
    (found : table.find? name = some (.record r)) (hfield : field ∈ r.fields) :
    field ∈ table.fields := by
  obtain ⟨before, after, hentries, -⟩ := List.lookup_eq_some_iff.1 found
  refine List.mem_flatMap.2 ⟨(name, .record r), ?_, hfield⟩
  simp [hentries]

/-! ## Depth and height -/

theorem Descriptor.height_le_heights {ty : Descriptor} {types : List Descriptor}
    (h : ty ∈ types) :
    ty.height ≤ heights types := by
  induction types with
  | nil => simp at h
  | cons other rest ih =>
      rw [heights]
      rcases List.mem_cons.1 h with rfl | h
      · exact Nat.le_max_left _ _
      · exact Nat.le_trans (ih h) (Nat.le_max_right _ _)

/-- **What a call does to the data and the type.**  It keeps the data and lowers the type, or it
makes the data less deep and goes to a lower type or to that of a field, or it starts the
default of a field of the record referred to. -/
theorem Table.calls_cases {table : Table} {matching : Matching} {ty : Descriptor} {plain : Json}
    {call : Call} (h : call ∈ table.calls matching ty plain) :
    (call.plain = plain ∧ call.type.height < ty.height) ∨
      (call.plain.depth < plain.depth ∧
        (call.type.height < ty.height ∨ ∃ field ∈ table.fields, call.type = field.type)) ∨
      ∃ name r, ty = .named name ∧ table.find? name = some (.record r) ∧
        ∃ field ∈ r.fields, field.default = some call.plain ∧ field.type = call.type := by
  cases ty with
  | primitive kind => simp [Table.calls] at h
  | optional inner =>
      cases plain with
      | null => simp [Table.calls] at h
      | _ =>
          obtain rfl := List.mem_singleton.1 h
          exact .inl ⟨rfl, by simp [Descriptor.height]⟩
  | union alternatives =>
      obtain ⟨alternative, hmem, hcall⟩ := List.mem_flatMap.1 h
      have hheight := Descriptor.height_le_heights hmem
      have hlower : alternative.height < (Descriptor.union alternatives).height := by
        rw [Descriptor.height]; omega
      have hcases : call = ⟨.exact, alternative, plain⟩ ∨
          call = ⟨matching, alternative, plain⟩ := by
        simpa using hcall
      rcases hcases with rfl | rfl
      · exact .inl ⟨rfl, hlower⟩
      · exact .inl ⟨rfl, hlower⟩
  | list item =>
      cases plain with
      | array items =>
          obtain ⟨x, hx, rfl⟩ := List.mem_map.1 h
          refine .inr (.inl ⟨Json.depth_lt_of_mem_array hx, .inl ?_⟩)
          simp [Descriptor.height]
      | _ => simp [Table.calls] at h
  | map value =>
      cases plain with
      | object members =>
          obtain ⟨member, hmember, rfl⟩ := List.mem_map.1 h
          refine .inr (.inl ⟨Json.depth_lt_of_mem_object hmember, .inl ?_⟩)
          simp [Descriptor.height]
      | _ => simp [Table.calls] at h
  | named name =>
      obtain ⟨r, members, field, part, found, rfl, hfield, hpart, rfl⟩ :=
        Table.mem_calls_named.1 h
      have hmem := Table.mem_fields found hfield
      cases hlookup : members.lookup field.name with
      | none =>
          rw [hlookup, Option.none_or] at hpart
          exact .inr (.inr ⟨name, r, rfl, found, field, hfield, hpart, rfl⟩)
      | some x =>
          obtain rfl : x = part := by simpa [hlookup] using hpart
          exact .inr (.inl ⟨Json.depth_lt_of_lookup hlookup, .inr ⟨field, hmem, rfl⟩⟩)

/-! ## The bound -/

section Bound

/-- How many starts of defaults end with some fuel. -/
def Table.settledStarts (table : Table) (fuel : Nat) : Nat :=
  table.starts.countP (Call.settled table fuel)

theorem countP_lt_countP {α : Type} {p q : α → Bool} {l : List α} {a : α}
    (hpq : ∀ x ∈ l, p x → q x) (ha : a ∈ l) (hp : p a = false) (hq : q a = true) :
    l.countP p < l.countP q := by
  induction l with
  | nil => simp at ha
  | cons x rest ih =>
      have hrest : rest.countP p ≤ rest.countP q :=
        List.countP_mono_left fun y hy => hpq y (by simp [hy])
      rw [List.countP_cons, List.countP_cons]
      rcases List.mem_cons.1 ha with rfl | ha
      · simp [hp, hq]; omega
      · have hlt := ih (fun y hy => hpq y (by simp [hy])) ha
        have hx := hpq x (by simp)
        by_cases hpx : p x = true
        · simp [hpx, hx hpx]; omega
        · simp [hpx]; omega

theorem Table.settledStarts_mono (table : Table) {fuel fuel' : Nat} (hle : fuel ≤ fuel') :
    table.settledStarts fuel ≤ table.settledStarts fuel' :=
  List.countP_mono_left fun _ _ => Call.settled_mono hle

/-- A start that ends only with more fuel is counted only there. -/
theorem Table.settledStarts_lt {table : Table} {fuel fuel' : Nat} {start : Call}
    (hle : fuel ≤ fuel') (hstart : start ∈ table.starts)
    (hnot : start.settled table fuel = false) (hsettled : start.settled table fuel' = true) :
    table.settledStarts fuel < table.settledStarts fuel' :=
  countP_lt_countP (fun _ _ => Call.settled_mono hle) hstart hnot hsettled

variable {table : Table} {depth height : Nat}

/-- **A call that ends does so within a budget** of its depth and height and of the starts that
end sooner. -/
theorem settled_budget (hdepth : ∀ start ∈ table.starts, start.plain.depth ≤ depth)
    (hheight : ∀ field ∈ table.fields, field.type.height ≤ height) (fuel : Nat) (call : Call)
    (hplain : call.plain.depth ≤ depth) (htype : call.type.height ≤ height)
    (h : call.settled table (fuel + 1) = true) :
    call.settled table (table.settledStarts fuel * ((depth + 1) * (height + 1)) +
      call.plain.depth * (height + 1) + call.type.height + 1) = true := by
  induction fuel using Nat.strongRecOn generalizing call with
  | _ fuel ih =>
      obtain ⟨r, hr⟩ := Call.settled_iff.1 h
      refine Call.settled_iff.2 ⟨r, ?_⟩
      refine convertStep_refines (fun part hpart => ?_) r hr
      intro s hs
      have hpartSettled : part.settled table fuel = true := Call.settled_iff.2 ⟨s, hs⟩
      -- The least fuel of the part is less than that of the call, so the induction covers the
      -- part.
      obtain ⟨least, hle, hsettled, hnot⟩ := Call.exists_least hpartSettled
      have hstarts := table.settledStarts_mono (show least ≤ fuel by omega)
      have hmul := Nat.mul_le_mul_right ((depth + 1) * (height + 1)) hstarts
      have hwide : (depth + 1) * (height + 1) = depth * (height + 1) + (height + 1) :=
        Nat.succ_mul _ _
      rcases Table.calls_cases hpart with
        ⟨hplain', htype'⟩ | ⟨hplain', htype'⟩ | ⟨name, r, -, found, field, hfield, hdefault,
          htype'⟩
      · have hbudget := ih least (by omega) part (hplain' ▸ hplain) (by omega) hsettled
        refine convertWithin_agree hs (Call.settled_mono ?_ hbudget)
        rw [hplain']
        omega
      · have hlow : part.type.height ≤ height := by
          rcases htype' with hlt | ⟨field, hfield, heq⟩
          · omega
          · exact heq ▸ hheight field hfield
        have hbudget := ih least (by omega) part (by omega) hlow hsettled
        refine convertWithin_agree hs (Call.settled_mono ?_ hbudget)
        have hstep := Nat.mul_le_mul_right (height + 1) (Nat.succ_le_of_lt hplain')
        rw [Nat.succ_mul] at hstep
        omega
      · -- The default starts anew at any depth and height, which the start that drops out of
        -- the count makes up for.
        have hmem := Table.mem_fields found hfield
        have hstart : part ∈ table.starts :=
          Table.mem_starts_iff.2 ⟨field, hmem, hdefault, htype'⟩
        have hlow : part.type.height ≤ height := htype' ▸ hheight field hmem
        have hbudget := ih least (by omega) part (hdepth part hstart) hlow hsettled
        refine convertWithin_agree hs (Call.settled_mono ?_ hbudget)
        have hfewer :=
          table.settledStarts_lt (show least ≤ fuel by omega) hstart hnot hpartSettled
        have hmul' :=
          Nat.mul_le_mul_right ((depth + 1) * (height + 1)) (Nat.succ_le_of_lt hfewer)
        have hdeep := Nat.mul_le_mul_right (height + 1) (hdepth part hstart)
        rw [Nat.succ_mul] at hmul'
        omega

end Bound

theorem budget_le {starts defaults depth' depth height' height : Nat}
    (hstarts : starts ≤ 2 * defaults) (hdepth : depth' ≤ depth) (hheight : height' ≤ height) :
    starts * ((depth + 1) * (height + 1)) + depth' * (height + 1) + height' + 1 ≤
      (2 * defaults + 1) * ((depth + 1) * (height + 1)) + 1 := by
  have hwide := Nat.mul_le_mul_right ((depth + 1) * (height + 1)) hstarts
  have hdeep := Nat.mul_le_mul_right (height + 1) hdepth
  have hlast : (depth + 1) * (height + 1) = depth * (height + 1) + (height + 1) :=
    Nat.succ_mul _ _
  rw [Nat.succ_mul (2 * defaults)]
  omega

/-! ## The fixed point -/

/-- **Fuel enough.**  A result that some amount of fuel gives is that of the conversion. -/
theorem conversion_eq_of_convertWithin {table : Table} {fuel : Nat} {matching : Matching}
    {ty : Descriptor} {plain : Json} {r : Except ConversionError Value}
    (h : (convertWithin table fuel matching ty plain).run = some r) :
    (conversion table matching ty plain).run = some r := by
  cases fuel with
  | zero => simp [convertWithin] at h
  | succ fuel =>
      have hdepth : ∀ start ∈ table.starts,
          start.plain.depth ≤ max plain.depth (Json.itemsDepth table.defaults) := by
        intro start hstart
        obtain ⟨field, hfield, hdefault, -⟩ := Table.mem_starts_iff.1 hstart
        have hmem : start.plain ∈ table.defaults :=
          List.mem_filterMap.2 ⟨field, hfield, hdefault⟩
        exact Nat.le_trans (Json.depth_le_itemsDepth hmem) (Nat.le_max_right _ _)
      have hheight : ∀ field ∈ table.fields,
          field.type.height ≤
            max ty.height (Descriptor.heights (table.fields.map Field.type)) := by
        intro field hfield
        have hmem : field.type ∈ table.fields.map Field.type := List.mem_map_of_mem hfield
        exact Nat.le_trans (Descriptor.height_le_heights hmem) (Nat.le_max_right _ _)
      have hbudget :=
        settled_budget hdepth hheight fuel ⟨matching, ty, plain⟩ (Nat.le_max_left _ _)
          (Nat.le_max_left _ _) (Call.settled_iff.2 ⟨r, h⟩)
      refine convertWithin_agree h (Call.settled_mono ?_ hbudget)
      have hstarts : table.settledStarts fuel ≤ 2 * table.defaults.length :=
        table.length_starts ▸ List.countP_le_length
      exact budget_le hstarts (Nat.le_max_left _ _) (Nat.le_max_left _ _)

theorem convertWithin_refines_conversion (table : Table) (fuel : Nat) (matching : Matching)
    (ty : Descriptor) (plain : Json) :
    Refines (convertWithin table fuel matching ty plain) (conversion table matching ty plain) :=
  fun _ => conversion_eq_of_convertWithin

/-- Finitely many calls that end at all end with one amount of fuel. -/
theorem exists_fuel_refines (table : Table) (calls : List Call) :
    ∃ fuel, ∀ call ∈ calls, Agrees (conversion table) (convertWithin table fuel) call := by
  induction calls with
  | nil => exact ⟨0, by simp⟩
  | cons call rest ih =>
      obtain ⟨fuel, hfuel⟩ := ih
      refine ⟨max (conversionFuel table call.type call.plain) fuel, fun other hother r hr => ?_⟩
      rcases List.mem_cons.1 hother with rfl | hmem
      · exact convertWithin_mono (Nat.le_max_left _ _) hr
      · exact convertWithin_mono (Nat.le_max_right _ _) (hfuel other hmem r hr)

/-- **Conversion is a fixed point of its step.** -/
theorem conversion_eq_step (table : Table) (matching : Matching) (ty : Descriptor)
    (plain : Json) :
    (conversion table matching ty plain).run =
      (convertStep table (conversion table) matching ty plain).run := by
  refine Option.ext fun r => ⟨fun h => ?_, fun h => ?_⟩
  · have hstep : (convertStep table (convertWithin table _) matching ty plain).run = some r := h
    exact convertStep_refines (fun call _ => convertWithin_refines_conversion table _ _ _ _)
      r hstep
  · -- The calls of the step have fuel of their own each; the most of it serves them all.
    obtain ⟨fuel, hfuel⟩ := exists_fuel_refines table (table.calls matching ty plain)
    have hwithin : (convertWithin table (fuel + 1) matching ty plain).run = some r :=
      convertStep_refines hfuel r h
    exact conversion_eq_of_convertWithin hwithin

theorem conversion_primitive (table : Table) (matching : Matching) (kind : Primitive)
    (plain : Json) :
    (conversion table matching (.primitive kind) plain).run =
      some (kind.ofPlain matching plain) := by
  rw [conversion_eq_step]
  rfl

theorem conversion_optional (table : Table) (matching : Matching) (inner : Descriptor)
    {plain : Json} (present : plain ≠ .null) :
    (conversion table matching (.optional inner) plain).run =
      (conversion table matching inner plain).run := by
  rw [conversion_eq_step, convertStep_optional present]

/-- Conversion takes data exactly in the ways of `Takes`. -/
theorem conversion_eq_ok_iff {table : Table} {matching : Matching} {ty : Descriptor}
    {plain : Json} {v : Value} :
    (conversion table matching ty plain).run = some (.ok v) ↔
      Takes table (conversion table).verdicts matching ty plain v := by
  rw [conversion_eq_step]
  exact convertStep_eq_ok_iff

/-- **Induction on what is taken.**  What holds of a value whenever it holds of the values of
the parts it was taken from holds of every value taken. -/
theorem conversion_induction {table : Table}
    {motive : Matching → Descriptor → Json → Value → Prop}
    (step : ∀ matching ty plain v,
      Takes table
        { takes := fun matching ty plain v =>
            (conversion table matching ty plain).run = some (.ok v) ∧ motive matching ty plain v
          refuses := (conversion table).verdicts.refuses } matching ty plain v →
      motive matching ty plain v)
    {matching : Matching} {ty : Descriptor} {plain : Json} {v : Value}
    (h : (conversion table matching ty plain).run = some (.ok v)) :
    motive matching ty plain v := by
  suffices hwithin : ∀ fuel matching ty plain v,
      (convertWithin table fuel matching ty plain).run = some (.ok v) →
      motive matching ty plain v by
    exact hwithin _ matching ty plain v h
  intro fuel
  induction fuel with
  | zero => intro matching ty plain v h; simp [convertWithin] at h
  | succ fuel ih =>
      intro matching ty plain v h
      refine step matching ty plain v (Takes.mono ?_ ?_ (convertStep_eq_ok_iff.1 h))
      · intro matching ty plain v h
        exact ⟨conversion_eq_of_convertWithin h, ih matching ty plain v h⟩
      · rintro matching ty plain ⟨e, he⟩
        exact ⟨e, conversion_eq_of_convertWithin he⟩

end AvroBindings
