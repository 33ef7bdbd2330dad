import Mathlib.Data.List.Forall2
import AvroBindings.Convert.OfPlain

/-!
# The calls of one step of conversion

`convertStep` looks at a type and at plain data and leaves the parts to a function it is given.
Here it is said which parts a step may ask for, and that nothing else about the function
matters.

## Main Definitions

* `Conversion.Refines` — where one conversion finishes, another gives the same result.
* `Conversion.Finishes` — a conversion ends with a value or a fault.
* `Call`, `Table.calls`, `Table.Asks` — the conversions of parts that a step may ask for.

## Main Statements

* `convertStep_refines`, `convertStep_congr` — a step depends on its parts only through its
  calls.
* `convertStep_finishes` — a step finishes if all of its calls do.
-/

namespace AvroBindings

namespace Conversion

/-! ## Results -/

variable {α β : Type}

@[simp] theorem run_return (a : α) : (pure a : Conversion α).run = some (.ok a) := rfl

@[simp] theorem run_refusal (e : ConversionError) :
    (throw e : Conversion α).run = some (.error e) := rfl

@[simp] theorem run_unfinished : (unfinished : Conversion α).run = none := rfl

@[simp] theorem run_lift (x : Except ConversionError α) :
    (liftM x : Conversion α).run = some x := rfl

theorem run_adapt (x : Conversion α) (f : ConversionError → ConversionError) :
    (ExceptT.adapt f x).run = x.run.map (Except.mapError f) := rfl

/-- A sequence succeeds if its first part does and then the rest. -/
theorem run_bind_eq_ok_iff {x : Conversion α} {f : α → Conversion β} {b : β} :
    (x >>= f).run = some (.ok b) ↔ ∃ a, x.run = some (.ok a) ∧ (f a).run = some (.ok b) := by
  rw [ExceptT.run_bind]
  cases hx : x.run with
  | none => simp
  | some r => cases r <;> simp

/-- A fault that is put into a field is there exactly if it was there before. -/
theorem run_adapt_eq_ok_iff {x : Conversion α} {f : ConversionError → ConversionError} {a : α} :
    (ExceptT.adapt f x).run = some (.ok a) ↔ x.run = some (.ok a) := by
  rw [run_adapt]
  cases hx : x.run with
  | none => simp
  | some r => cases r <;> simp [Except.mapError]

/-! ## Refinement -/

/-- Where the first conversion finishes, the second gives the same result. -/
def Refines (x y : Conversion α) : Prop := ∀ r, x.run = some r → y.run = some r

@[refl] theorem Refines.refl (x : Conversion α) : Refines x x := fun _ h => h

/-- Conversions that refine each other are the same. -/
theorem Refines.antisymm {x y : Conversion α} (hxy : Refines x y) (hyx : Refines y x) : x = y :=
  ExceptT.ext (Option.ext fun r => ⟨hxy r, hyx r⟩)

/-- The conversion that has run out of fuel is refined by every other. -/
theorem Refines.unfinished (y : Conversion α) : Refines unfinished y := by
  intro r h
  simp at h

theorem Refines.bind {x y : Conversion α} {f g : α → Conversion β} (hxy : Refines x y)
    (hfg : ∀ a, Refines (f a) (g a)) : Refines (x >>= f) (y >>= g) := by
  intro r h
  rw [ExceptT.run_bind] at h ⊢
  cases hx : x.run with
  | none => simp [hx] at h
  | some s =>
      rw [hxy s hx]
      rw [hx] at h
      cases s with
      | error e => simpa using h
      | ok a => exact hfg a r (by simpa using h)

theorem Refines.adapt {x y : Conversion α} (f : ConversionError → ConversionError)
    (h : Refines x y) :
    Refines (ExceptT.adapt f x) (ExceptT.adapt f y) := by
  intro r hr
  rw [run_adapt] at hr ⊢
  obtain ⟨s, hs, rfl⟩ := Option.map_eq_some_iff.1 hr
  simp [h s hs]

/-! ## Ends -/

/-- The conversion ends with a value or a fault. -/
def Finishes (x : Conversion α) : Prop := ∃ r, x.run = some r

theorem Finishes.return (a : α) : Finishes (pure a) := ⟨.ok a, rfl⟩

theorem Finishes.refusal (e : ConversionError) : Finishes (throw e : Conversion α) :=
  ⟨.error e, rfl⟩

theorem Finishes.bind {x : Conversion α} {f : α → Conversion β} (hx : Finishes x)
    (hf : ∀ a, Finishes (f a)) :
    Finishes (x >>= f) := by
  obtain ⟨r, hr⟩ := hx
  unfold Finishes
  rw [ExceptT.run_bind, hr]
  cases r with
  | error e => exact ⟨.error e, rfl⟩
  | ok a => exact hf a

theorem Finishes.adapt {x : Conversion α} (f : ConversionError → ConversionError)
    (hx : Finishes x) :
    Finishes (ExceptT.adapt f x) := by
  obtain ⟨r, hr⟩ := hx
  exact ⟨r.mapError f, by rw [run_adapt, hr, Option.map_some]⟩

/-! ## The first success on a list -/

/-- A success on a list follows only refusals. -/
theorem first?_eq_ok_iff {f : α → Conversion β} {l : List α} {b : β} :
    first? f l = some (some b) ↔
      ∃ before a after,
        l = before ++ a :: after ∧ (∀ x ∈ before, ∃ e, (f x).run = some (.error e)) ∧
        (f a).run = some (.ok b) := by
  induction l with
  | nil => simp [first?]
  | cons x rest ih =>
      unfold first?
      constructor
      · intro h
        cases hx : (f x).run with
        | none => simp [hx] at h
        | some r =>
            cases r with
            | ok y => exact ⟨[], x, rest, rfl, by simp, by simpa [hx] using h⟩
            | error e =>
                rw [hx] at h
                obtain ⟨before, a, after, rfl, refused, taken⟩ := ih.1 h
                exact ⟨x :: before, a, after, rfl, by simpa [hx] using refused, taken⟩
      · rintro ⟨before, a, after, hl, refused, taken⟩
        cases before with
        | nil =>
            obtain ⟨rfl, -⟩ := List.cons.inj hl
            simp [taken]
        | cons y before =>
            obtain ⟨rfl, rfl⟩ := List.cons.inj hl
            obtain ⟨e, he⟩ := refused x (by simp)
            rw [he]
            exact ih.2 ⟨before, a, after, rfl, fun z hz => refused z (by simp [hz]), taken⟩

/-- A list has no success exactly if everything on it is refused. -/
theorem first?_eq_error_iff {f : α → Conversion β} {l : List α} :
    first? f l = some none ↔ ∀ x ∈ l, ∃ e, (f x).run = some (.error e) := by
  induction l with
  | nil => simp [first?]
  | cons x rest ih =>
      unfold first?
      cases hx : (f x).run with
      | none => simp [hx]
      | some r => cases r <;> simp [hx, ih]

/-- A search through a list ends if the function ends on everything on it. -/
theorem first?_finishes {f : α → Conversion β} {l : List α} (hf : ∀ x ∈ l, Finishes (f x)) :
    ∃ found, first? f l = some found := by
  induction l with
  | nil => exact ⟨none, rfl⟩
  | cons x rest ih =>
      obtain ⟨r, hr⟩ := hf x List.mem_cons_self
      unfold first?
      rw [hr]
      cases r with
      | ok y => exact ⟨some y, rfl⟩
      | error e => exact ih fun y hy => hf y (List.mem_cons_of_mem _ hy)

/-- The first success is found again when the function is refined on the list. -/
theorem first?_refines {f g : α → Conversion β} {l : List α} {r : Option β}
    (hfg : ∀ x ∈ l, Refines (f x) (g x)) (h : first? f l = some r) : first? g l = some r := by
  cases r with
  | none =>
      rw [first?_eq_error_iff] at h ⊢
      intro x hx
      obtain ⟨e, he⟩ := h x hx
      exact ⟨e, hfg x hx _ he⟩
  | some b =>
      rw [first?_eq_ok_iff] at h ⊢
      obtain ⟨before, a, after, rfl, refused, taken⟩ := h
      refine ⟨before, a, after, rfl, fun x hx => ?_, hfg a (by simp) _ taken⟩
      obtain ⟨e, he⟩ := refused x hx
      exact ⟨e, hfg x (by simp [hx]) _ he⟩

end Conversion

open Conversion

/-! ## The calls of a step -/

/-- A conversion that may be asked for: how strictly, at which type, of which data. -/
structure Call where
  matching : Matching
  type : Descriptor
  plain : Json

/-- The calls of a step.  A union also asks for its exact attempts; a record asks for the member
of each of its fields or else for the field's default. -/
def Table.calls (table : Table) (matching : Matching) (ty : Descriptor) (plain : Json) :
    List Call :=
  match ty with
  | .primitive _ => []
  | .optional inner =>
    match plain with
    | .null => []
    | _ => [⟨matching, inner, plain⟩]
  | .union alternatives =>
      alternatives.flatMap fun ty => [⟨.exact, ty, plain⟩, ⟨matching, ty, plain⟩]
  | .list item =>
    match plain with
    | .array items => items.map fun x => ⟨matching, item, x⟩
    | _ => []
  | .map value =>
    match plain with
    | .object members => members.map fun member => ⟨matching, value, member.2⟩
    | _ => []
  | .named name =>
    match table.find? name, plain with
    | some (.record r), .object members =>
      r.fields.filterMap fun field =>
        ((members.lookup field.name).or field.default).map fun part =>
          ⟨matching, field.type, part⟩
    | _, _ => []

/-- The calls of a reference are those of the fields of the record it finds. -/
theorem Table.mem_calls_named {table : Table} {matching : Matching} {name : String}
    {plain : Json} {call : Call} :
    call ∈ table.calls matching (.named name) plain ↔
      ∃ r members field part, table.find? name = some (.record r) ∧ plain = .object members ∧
        field ∈ r.fields ∧ (members.lookup field.name).or field.default = some part ∧
        call = ⟨matching, field.type, part⟩ := by
  constructor
  · intro h
    cases hfind : table.find? name with
    | none => simp [Table.calls, hfind] at h
    | some type =>
        cases type with
        | enum e => simp [Table.calls, hfind] at h
        | record r =>
            cases plain with
            | object members =>
                simp only [Table.calls, hfind] at h
                obtain ⟨field, hfield, hcall⟩ := List.mem_filterMap.1 h
                obtain ⟨part, hpart, rfl⟩ := Option.map_eq_some_iff.1 hcall
                exact ⟨r, members, field, part, rfl, rfl, hfield, hpart, rfl⟩
            | _ => simp [Table.calls, hfind] at h
  · rintro ⟨r, members, field, part, hfind, rfl, hfield, hpart, rfl⟩
    simp only [Table.calls, hfind]
    exact List.mem_filterMap.2 ⟨field, hfield, by simp [hpart]⟩

/-- **One conversion asks for another**: the other is a call of its step. -/
def Table.Asks (table : Table) (part call : Call) : Prop :=
  part ∈ table.calls call.matching call.type call.plain

/-- Where the first function finishes a call, the second gives the same result. -/
def Agrees (part part' : PartConversion) (call : Call) : Prop :=
  Refines (part call.matching call.type call.plain) (part' call.matching call.type call.plain)

/-- The exact order is a rearrangement of the alternatives. -/
theorem Table.mem_exactOrder (table : Table) {alternatives : List Descriptor}
    {ty : Descriptor} :
    ty ∈ table.exactOrder alternatives ↔ ty ∈ alternatives := by
  simp only [Table.exactOrder, List.mem_append, List.mem_filter]
  cases table.refersToEnum ty <;> simp

section Refinement

variable {table : Table} {part part' : PartConversion} {matching : Matching}

theorem convertItems_refines {item : Descriptor} {items : List Json}
    (h : ∀ x ∈ items, Refines (part matching item x) (part' matching item x)) :
    Refines (convertItems part matching item items)
      (convertItems part' matching item items) := by
  induction items with
  | nil => exact Refines.refl _
  | cons x rest ih =>
      refine Refines.bind (h x (by simp)) fun v => ?_
      exact Refines.bind (ih fun y hy => h y (by simp [hy])) fun vs => Refines.refl _

theorem convertEntries_refines {value : Descriptor} {members : List (String × Json)}
    (h : ∀ member ∈ members,
      Refines (part matching value member.2) (part' matching value member.2)) :
    Refines (convertEntries part matching value members)
      (convertEntries part' matching value members) := by
  induction members with
  | nil => exact Refines.refl _
  | cons member rest ih =>
      refine Refines.bind (h member (by simp)) fun v => ?_
      exact Refines.bind (ih fun y hy => h y (by simp [hy])) fun vs => Refines.refl _

theorem convertField_refines {record : String} {members : List (String × Json)} {field : Field}
    (h : ∀ plain, (members.lookup field.name).or field.default = some plain →
      Refines (part matching field.type plain) (part' matching field.type plain)) :
    Refines (convertField part matching record members field)
      (convertField part' matching record members field) := by
  unfold convertField
  cases hplain : (members.lookup field.name).or field.default with
  | none => exact Refines.refl _
  | some plain => exact (h plain hplain).adapt _

theorem convertFields_refines {record : String} {members : List (String × Json)}
    {fields : List Field}
    (h : ∀ field ∈ fields, ∀ plain, (members.lookup field.name).or field.default = some plain →
      Refines (part matching field.type plain) (part' matching field.type plain)) :
    Refines (convertFields part matching record members fields)
      (convertFields part' matching record members fields) := by
  induction fields with
  | nil => exact Refines.refl _
  | cons field rest ih =>
      refine Refines.bind (convertField_refines (h field (by simp))) fun v => ?_
      exact Refines.bind (ih fun f hf => h f (by simp [hf])) fun vs => Refines.refl _

theorem convertUnion_refines {alternatives : List Descriptor} {plain : Json}
    (hexact : ∀ ty ∈ alternatives, Refines (part .exact ty plain) (part' .exact ty plain))
    (hmatching : ∀ ty ∈ alternatives,
      Refines (part matching ty plain) (part' matching ty plain)) :
    Refines (convertUnion table part matching alternatives plain)
      (convertUnion table part' matching alternatives plain) := by
  intro r h
  unfold convertUnion at h ⊢
  cases hfirst : first? (fun ty => part .exact ty plain) (table.exactOrder alternatives) with
  | none => simp [hfirst] at h
  | some found =>
      have hfirst' :=
        first?_refines (fun ty hty => hexact ty (table.mem_exactOrder.1 hty)) hfirst
      rw [hfirst] at h
      rw [hfirst']
      cases found with
      | some v => exact h
      | none =>
          -- The coercing pass is asked for only after the exact one, and finishes only if that
          -- did.
          cases matching with
          | exact => exact h
          | coercing =>
              cases hsecond : first? (fun ty => part .coercing ty plain) alternatives with
              | none => simp [hsecond] at h
              | some found =>
                  have hsecond' := first?_refines hmatching hsecond
                  rw [hsecond] at h
                  rw [hsecond']
                  exact h

/-- **A step depends on its parts only through its calls.**  What the parts do beyond them, and
in particular whether they finish there, changes nothing. -/
theorem convertStep_refines {ty : Descriptor} {plain : Json}
    (h : ∀ call ∈ table.calls matching ty plain, Agrees part part' call) :
    Refines (convertStep table part matching ty plain)
      (convertStep table part' matching ty plain) := by
  cases ty with
  | primitive kind => exact Refines.refl _
  | optional inner =>
      cases plain with
      | null => exact Refines.refl _
      | _ => exact h ⟨matching, inner, _⟩ (List.mem_singleton_self _)
  | union alternatives =>
      refine convertUnion_refines (fun ty hty => ?_) fun ty hty => ?_
      · exact h ⟨.exact, ty, plain⟩ (List.mem_flatMap.2 ⟨ty, hty, by simp⟩)
      · exact h ⟨matching, ty, plain⟩ (List.mem_flatMap.2 ⟨ty, hty, by simp⟩)
  | list item =>
      cases plain with
      | array items =>
          refine Refines.bind (convertItems_refines fun x hx => ?_) fun vs => Refines.refl _
          exact h ⟨matching, item, x⟩ (List.mem_map_of_mem hx)
      | _ => exact Refines.refl _
  | map value =>
      cases plain with
      | object members =>
          refine Refines.bind (convertEntries_refines fun member hmember => ?_) fun vs =>
            Refines.refl _
          exact h ⟨matching, value, member.2⟩ (List.mem_map_of_mem hmember)
      | _ => exact Refines.refl _
  | named name =>
      change Refines (convertNamed table part matching name plain)
        (convertNamed table part' matching name plain)
      unfold convertNamed
      cases hfind : table.find? name with
      | none => exact Refines.refl _
      | some type =>
          cases type with
          | enum e => exact Refines.refl _
          | record r =>
              cases plain with
              | object members =>
                  change Refines (convertRecord part matching r members)
                    (convertRecord part' matching r members)
                  unfold convertRecord
                  cases members.find? fun member => (r.field? member.1).isNone with
                  | some unknown => exact Refines.refl _
                  | none =>
                      refine Refines.bind (convertFields_refines
                        fun field hfield plain hplain => ?_) fun vs => Refines.refl _
                      refine h ⟨matching, field.type, plain⟩ ?_
                      simp only [Table.calls, hfind]
                      exact List.mem_filterMap.2 ⟨field, hfield, by simp [hplain]⟩
              | _ => exact Refines.refl _

/-- A step gives the same with functions that do the same on its calls. -/
theorem convertStep_congr {ty : Descriptor} {plain : Json}
    (h : ∀ call ∈ table.calls matching ty plain,
      part call.matching call.type call.plain = part' call.matching call.type call.plain) :
    convertStep table part matching ty plain = convertStep table part' matching ty plain := by
  refine (convertStep_refines fun call hcall => ?_).antisymm
    (convertStep_refines fun call hcall => ?_)
  · rw [Agrees, h call hcall]
  · rw [Agrees, h call hcall]

end Refinement

section Ends

variable {table : Table} {part : PartConversion} {matching : Matching}

theorem convertItems_finishes {item : Descriptor} {items : List Json}
    (h : ∀ x ∈ items, Finishes (part matching item x)) :
    Finishes (convertItems part matching item items) := by
  induction items with
  | nil => exact .return _
  | cons x rest ih =>
      refine .bind (h x List.mem_cons_self) fun v => ?_
      exact .bind (ih fun y hy => h y (List.mem_cons_of_mem _ hy)) fun vs => .return _

theorem convertEntries_finishes {value : Descriptor} {members : List (String × Json)}
    (h : ∀ member ∈ members, Finishes (part matching value member.2)) :
    Finishes (convertEntries part matching value members) := by
  induction members with
  | nil => exact .return _
  | cons member rest ih =>
      refine .bind (h member List.mem_cons_self) fun v => ?_
      exact .bind (ih fun y hy => h y (List.mem_cons_of_mem _ hy)) fun vs => .return _

theorem convertField_finishes {record : String} {members : List (String × Json)} {field : Field}
    (h : ∀ plain, (members.lookup field.name).or field.default = some plain →
      Finishes (part matching field.type plain)) :
    Finishes (convertField part matching record members field) := by
  unfold convertField
  cases hplain : (members.lookup field.name).or field.default with
  | some plain => exact (h plain hplain).adapt _
  | none =>
      cases field.type.admitsNull with
      | true => exact .return _
      | false => exact .refusal _

theorem convertFields_finishes {record : String} {members : List (String × Json)}
    {fields : List Field}
    (h : ∀ field ∈ fields, ∀ plain, (members.lookup field.name).or field.default = some plain →
      Finishes (part matching field.type plain)) :
    Finishes (convertFields part matching record members fields) := by
  induction fields with
  | nil => exact .return _
  | cons field rest ih =>
      refine .bind (convertField_finishes (h field List.mem_cons_self)) fun v => ?_
      exact .bind (ih fun f hf => h f (List.mem_cons_of_mem _ hf)) fun vs => .return _

theorem convertUnion_finishes {alternatives : List Descriptor} {plain : Json}
    (hexact : ∀ ty ∈ alternatives, Finishes (part .exact ty plain))
    (hmatching : ∀ ty ∈ alternatives, Finishes (part matching ty plain)) :
    Finishes (convertUnion table part matching alternatives plain) := by
  obtain ⟨found, hfound⟩ := first?_finishes fun ty hty => hexact ty (table.mem_exactOrder.1 hty)
  unfold convertUnion
  rw [hfound]
  cases found with
  | some v => exact .return v
  | none =>
      cases matching with
      | exact => exact .refusal _
      | coercing =>
          obtain ⟨found', hfound'⟩ := first?_finishes hmatching
          rw [hfound']
          cases found' with
          | some v => exact .return v
          | none => exact .refusal _

/-- **A step finishes if all of its calls do.** -/
theorem convertStep_finishes {ty : Descriptor} {plain : Json}
    (h : ∀ call ∈ table.calls matching ty plain,
      Finishes (part call.matching call.type call.plain)) :
    Finishes (convertStep table part matching ty plain) := by
  cases ty with
  | primitive kind => exact ⟨kind.ofPlain matching plain, rfl⟩
  | optional inner =>
      cases plain with
      | null => exact .return _
      | _ => exact h ⟨matching, inner, _⟩ (List.mem_singleton_self _)
  | union alternatives =>
      refine convertUnion_finishes (fun ty hty => ?_) fun ty hty => ?_
      · exact h ⟨.exact, ty, plain⟩ (List.mem_flatMap.2 ⟨ty, hty, by simp⟩)
      · exact h ⟨matching, ty, plain⟩ (List.mem_flatMap.2 ⟨ty, hty, by simp⟩)
  | list item =>
      cases plain with
      | array items =>
          refine .bind (convertItems_finishes fun x hx => ?_) fun vs => .return _
          exact h ⟨matching, item, x⟩ (List.mem_map_of_mem hx)
      | _ => exact .refusal _
  | map value =>
      cases plain with
      | object members =>
          refine .bind (convertEntries_finishes fun member hmember => ?_) fun vs => .return _
          exact h ⟨matching, value, member.2⟩ (List.mem_map_of_mem hmember)
      | _ => exact .refusal _
  | named name =>
      change Finishes (convertNamed table part matching name plain)
      unfold convertNamed
      cases hfind : table.find? name with
      | none => exact .refusal _
      | some type =>
          cases type with
          | enum e => exact ⟨e.ofPlain name plain, rfl⟩
          | record r =>
              cases plain with
              | object members =>
                  change Finishes (convertRecord part matching r members)
                  unfold convertRecord
                  cases members.find? fun member => (r.field? member.1).isNone with
                  | some unknown => exact .refusal _
                  | none =>
                      refine .bind (convertFields_finishes fun field hfield plain hplain => ?_)
                        fun vs => .return _
                      refine h ⟨matching, field.type, plain⟩ (Table.mem_calls_named.2 ?_)
                      exact ⟨r, members, field, plain, hfind, rfl, hfield, hplain, rfl⟩
              | _ => exact .refusal _

end Ends

end AvroBindings
