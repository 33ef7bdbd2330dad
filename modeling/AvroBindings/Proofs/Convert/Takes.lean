import AvroBindings.Proofs.Convert.Calls

/-!
# The ways in which a step of conversion succeeds

The successes of `convertStep`, as an inductive relation over what the parts do.  Later proofs
go by cases on the relation and do not unfold the step.

## Main Definitions

* `Verdicts` — which data a conversion takes as which value, and which data it refuses.
* `Takes` — the ways in which one step takes data, from the verdicts on the parts.

## Main Statements

* `convertStep_eq_ok_iff` — a step succeeds exactly in the ways of `Takes`.
* `Takes.mono` — more is taken under verdicts that take and refuse more.
-/

namespace AvroBindings

open Conversion

/-! ## The ways in which a step succeeds -/

/-- Which data is taken as which value, and which data is refused. -/
structure Verdicts where
  takes : Matching → Descriptor → Json → Value → Prop
  refuses : Matching → Descriptor → Json → Prop

/-- The verdicts of a conversion: its successes and its faults. -/
def PartConversion.verdicts (part : PartConversion) : Verdicts where
  takes matching ty plain v := (part matching ty plain).run = some (.ok v)
  refuses matching ty plain := ∃ e, (part matching ty plain).run = some (.error e)

/-- A value of a field: of its member, else of its default, else null if the type admits it. -/
def Verdicts.TakesField (verdicts : Verdicts) (matching : Matching)
    (members : List (String × Json)) (field : Field) (v : Value) : Prop :=
  match (members.lookup field.name).or field.default with
  | some plain => verdicts.takes matching field.type plain v
  | none => field.type.admitsNull = true ∧ v = .null

/-- **One step takes data as a value.**  The verdicts are those on the parts of the type and the
data; a union succeeds with the first alternative that takes the data exactly, or, if all refuse
that, with the first one that takes it at all. -/
inductive Takes (table : Table) (verdicts : Verdicts) (matching : Matching) :
    Descriptor → Json → Value → Prop
  | primitive {kind : Primitive} {plain : Json} {v : Value}
      (h : kind.ofPlain matching plain = .ok v) :
      Takes table verdicts matching (.primitive kind) plain v
  | absent {inner : Descriptor} : Takes table verdicts matching (.optional inner) .null .null
  | present {inner : Descriptor} {plain : Json} {v : Value} (present : plain ≠ .null)
      (h : verdicts.takes matching inner plain v) :
      Takes table verdicts matching (.optional inner) plain v
  | exactly {alternatives before after : List Descriptor} {ty : Descriptor} {plain : Json}
      {v : Value} (order : table.exactOrder alternatives = before ++ ty :: after)
      (refused : ∀ other ∈ before, verdicts.refuses .exact other plain)
      (h : verdicts.takes .exact ty plain v) :
      Takes table verdicts matching (.union alternatives) plain v
  | coerced {before after : List Descriptor} {ty : Descriptor} {plain : Json} {v : Value}
      (coercing : matching = .coercing)
      (inexact : ∀ other ∈ before ++ ty :: after, verdicts.refuses .exact other plain)
      (refused : ∀ other ∈ before, verdicts.refuses .coercing other plain)
      (h : verdicts.takes .coercing ty plain v) :
      Takes table verdicts matching (.union (before ++ ty :: after)) plain v
  | list {item : Descriptor} {items : List Json} {vs : List Value}
      (h : List.Forall₂ (verdicts.takes matching item) items vs) :
      Takes table verdicts matching (.list item) (.array items) (.list vs)
  | map {value : Descriptor} {members : List (String × Json)} {entries : List (String × Value)}
      (h :
        List.Forall₂ (fun member entry => member.1 = entry.1 ∧
          verdicts.takes matching value member.2 entry.2) members entries) :
      Takes table verdicts matching (.map value) (.object members) (.map entries)
  | enum {name symbol : String} {e : Enumeration} (found : table.find? name = some (.enum e))
      (h : symbol ∈ e.symbols) :
      Takes table verdicts matching (.named name) (.string symbol) (.enum symbol)
  | record {name : String} {r : Record} {members : List (String × Json)}
      {fields : List (String × Value)} (found : table.find? name = some (.record r))
      (declared : ∀ member ∈ members, ∃ field ∈ r.fields, field.name = member.1)
      (h :
        List.Forall₂ (fun field entry => entry.1 = field.name ∧
          verdicts.TakesField matching members field entry.2) r.fields fields) :
      Takes table verdicts matching (.named name) (.object members)
        (.record r.name (Entries.ofPairs fields))

section Inversion

variable {table : Table} {part : PartConversion} {matching : Matching}

theorem convertItems_eq_ok_iff {item : Descriptor} {items : List Json} {vs : List Value} :
    (convertItems part matching item items).run = some (.ok vs) ↔
      List.Forall₂ (part.verdicts.takes matching item) items vs := by
  induction items generalizing vs with
  | nil => simp [convertItems, eq_comm]
  | cons x rest ih =>
      simp only [convertItems, run_bind_eq_ok_iff, ih, List.forall₂_cons_left_iff]
      constructor
      · rintro ⟨v, hv, ws, hws, h⟩
        exact ⟨v, ws, hv, hws, by simpa [eq_comm] using h⟩
      · rintro ⟨v, ws, hv, hws, rfl⟩
        exact ⟨v, hv, ws, hws, rfl⟩

theorem convertEntries_eq_ok_iff {value : Descriptor} {members : List (String × Json)}
    {entries : List (String × Value)} :
    (convertEntries part matching value members).run = some (.ok entries) ↔
      List.Forall₂ (fun member entry => member.1 = entry.1 ∧
        part.verdicts.takes matching value member.2 entry.2) members entries := by
  induction members generalizing entries with
  | nil => simp [convertEntries, eq_comm]
  | cons member rest ih =>
      obtain ⟨k, x⟩ := member
      simp only [convertEntries, run_bind_eq_ok_iff, ih, List.forall₂_cons_left_iff]
      constructor
      · rintro ⟨v, hv, others, hothers, h⟩
        exact ⟨(k, v), others, ⟨rfl, hv⟩, hothers, by simpa [eq_comm] using h⟩
      · rintro ⟨⟨k', v⟩, others, ⟨hk, hv⟩, hothers, rfl⟩
        exact ⟨v, hv, others, hothers, by simp_all⟩

theorem convertField_eq_ok_iff {record : String} {members : List (String × Json)}
    {field : Field} {v : Value} :
    (convertField part matching record members field).run = some (.ok v) ↔
      part.verdicts.TakesField matching members field v := by
  unfold convertField Verdicts.TakesField
  cases (members.lookup field.name).or field.default with
  | some plain => exact run_adapt_eq_ok_iff
  | none => by_cases hnull : field.type.admitsNull = true <;> simp [hnull, eq_comm]

theorem convertFields_eq_ok_iff {record : String} {members : List (String × Json)}
    {fields : List Field} {entries : List (String × Value)} :
    (convertFields part matching record members fields).run = some (.ok entries) ↔
      List.Forall₂ (fun field entry => entry.1 = field.name ∧
        part.verdicts.TakesField matching members field entry.2) fields entries := by
  induction fields generalizing entries with
  | nil => simp [convertFields, eq_comm]
  | cons field rest ih =>
      simp only [convertFields, run_bind_eq_ok_iff, convertField_eq_ok_iff, ih,
        List.forall₂_cons_left_iff]
      constructor
      · rintro ⟨v, hv, others, hothers, h⟩
        exact ⟨(field.name, v), others, ⟨rfl, hv⟩, hothers, by simpa [eq_comm] using h⟩
      · rintro ⟨⟨k, v⟩, others, ⟨hk, hv⟩, hothers, rfl⟩
        exact ⟨v, hv, others, hothers, by simp_all⟩

/-- A member that no field declares is found exactly if there is one. -/
theorem Record.find?_undeclared_eq_none_iff {r : Record} {members : List (String × Json)} :
    (members.find? fun member => (r.field? member.1).isNone) = none ↔
      ∀ member ∈ members, ∃ field ∈ r.fields, field.name = member.1 := by
  simp [Record.field?]

/-- Fields of the same names declare the same members. -/
theorem Record.isNone_field?_eq {r r' : Record}
    (names : List.Forall₂ (fun field field' => field.name = field'.name) r.fields r'.fields)
    (key : String) :
    (r.field? key).isNone = (r'.field? key).isNone := by
  unfold Record.field?
  generalize r.fields = fields at names ⊢
  generalize r'.fields = fields' at names ⊢
  induction names with
  | nil => rfl
  | cons hname _ ih =>
      rw [List.find?_cons, List.find?_cons, hname]
      split
      · rfl
      · exact ih

theorem convertNamed_eq_ok_iff {name : String} {plain : Json} {v : Value} :
    (convertNamed table part matching name plain).run = some (.ok v) ↔
      Takes table part.verdicts matching (.named name) plain v := by
  unfold convertNamed
  constructor
  · intro h
    cases hfind : table.find? name with
    | none => simp [hfind] at h
    | some type =>
        rw [hfind] at h
        cases type with
        | enum e =>
            cases plain with
            | string symbol =>
                by_cases hsymbol : symbol ∈ e.symbols
                · have hv : v = .enum symbol := by
                    simpa [Enumeration.ofPlain, hsymbol, eq_comm] using h
                  exact hv ▸ .enum hfind hsymbol
                · simp [Enumeration.ofPlain, hsymbol] at h
            | _ => simp [Enumeration.ofPlain] at h
        | record r =>
            cases plain with
            | object members =>
                dsimp only [convertRecord] at h
                cases hunknown : members.find? fun member => (r.field? member.1).isNone with
                | some unknown => simp [hunknown] at h
                | none =>
                    rw [hunknown] at h
                    simp only [run_bind_eq_ok_iff, convertFields_eq_ok_iff] at h
                    obtain ⟨fields, hfields, hv⟩ := h
                    obtain rfl : v = .record r.name (Entries.ofPairs fields) := by
                      simpa [eq_comm] using hv
                    exact .record hfind (Record.find?_undeclared_eq_none_iff.1 hunknown) hfields
            | _ => simp at h
  · intro h
    cases h with
    | enum found hsymbol => simp [found, Enumeration.ofPlain, hsymbol]
    | record found declared hfields =>
        simp only [found, convertRecord, Record.find?_undeclared_eq_none_iff.2 declared,
          run_bind_eq_ok_iff, convertFields_eq_ok_iff]
        exact ⟨_, hfields, rfl⟩

theorem convertUnion_eq_ok_iff {alternatives : List Descriptor} {plain : Json} {v : Value} :
    (convertUnion table part matching alternatives plain).run = some (.ok v) ↔
      Takes table part.verdicts matching (.union alternatives) plain v := by
  unfold convertUnion
  constructor
  · intro h
    cases hfirst : first? (fun ty => part .exact ty plain) (table.exactOrder alternatives) with
    | none => simp [hfirst] at h
    | some found =>
        cases found with
        | some w =>
            obtain rfl : v = w := by simpa [hfirst, eq_comm] using h
            obtain ⟨before, ty, after, order, refused, taken⟩ := first?_eq_ok_iff.1 hfirst
            exact .exactly order refused taken
        | none =>
            -- All have refused exactly, so it is the coercing pass that succeeds.
            cases matching with
            | exact => simp [hfirst] at h
            | coercing =>
                cases hsecond : first? (fun ty => part .coercing ty plain) alternatives with
                | none => simp [hfirst, hsecond] at h
                | some found =>
                    cases found with
                    | none => simp [hfirst, hsecond] at h
                    | some w =>
                        obtain rfl : v = w := by simpa [hfirst, hsecond, eq_comm] using h
                        obtain ⟨before, ty, after, rfl, refused, taken⟩ :=
                          first?_eq_ok_iff.1 hsecond
                        refine .coerced rfl (fun other hother => ?_) refused taken
                        exact first?_eq_error_iff.1 hfirst other (table.mem_exactOrder.2 hother)
  · intro h
    cases h with
    | exactly order refused taken =>
        rw [first?_eq_ok_iff.2 ⟨_, _, _, order, refused, taken⟩]
        rfl
    | coerced coercing inexact refused taken =>
        subst coercing
        rw [first?_eq_error_iff.2 fun other hother => inexact other
          (table.mem_exactOrder.1 hother), first?_eq_ok_iff.2 ⟨_, _, _, rfl, refused, taken⟩]
        rfl

/-- **A union refuses** exactly if all of its alternatives refuse, the exact attempts as well as
those that match as it is asked to; its fault names them all. -/
theorem convertUnion_eq_error_iff {alternatives : List Descriptor} {plain : Json}
    {e : ConversionError} :
    (convertUnion table part matching alternatives plain).run = some (.error e) ↔
      (∀ ty ∈ alternatives, part.verdicts.refuses .exact ty plain) ∧
        (∀ ty ∈ alternatives, part.verdicts.refuses matching ty plain) ∧
        e = .noAlternative plain (alternatives.map Descriptor.text) := by
  unfold convertUnion
  constructor
  · intro h
    cases hfirst : first? (fun ty => part .exact ty plain) (table.exactOrder alternatives) with
    | none => simp [hfirst] at h
    | some found =>
        cases found with
        | some v => simp [hfirst] at h
        | none =>
            have hexact : ∀ ty ∈ alternatives, part.verdicts.refuses .exact ty plain :=
              fun ty hty => first?_eq_error_iff.1 hfirst ty (table.mem_exactOrder.2 hty)
            cases matching with
            | exact => exact ⟨hexact, hexact, by simpa [hfirst, eq_comm] using h⟩
            | coercing =>
                cases hsecond : first? (fun ty => part .coercing ty plain) alternatives with
                | none => simp [hfirst, hsecond] at h
                | some found =>
                    cases found with
                    | some v => simp [hfirst, hsecond] at h
                    | none =>
                        exact ⟨hexact, first?_eq_error_iff.1 hsecond,
                          by simpa [hfirst, hsecond, eq_comm] using h⟩
  · rintro ⟨hexact, hmatching, rfl⟩
    rw [first?_eq_error_iff.2 fun ty hty => hexact ty (table.mem_exactOrder.1 hty)]
    cases matching with
    | exact => rfl
    | coercing =>
        rw [first?_eq_error_iff.2 hmatching]
        rfl

/-- An optional leaves everything but null to its inner type. -/
theorem convertStep_optional {inner : Descriptor} {plain : Json} (present : plain ≠ .null) :
    convertStep table part matching (.optional inner) plain = part matching inner plain := by
  cases plain with
  | null => exact absurd rfl present
  | _ => rfl

/-- **A step succeeds exactly in the ways of `Takes`.** -/
theorem convertStep_eq_ok_iff {ty : Descriptor} {plain : Json} {v : Value} :
    (convertStep table part matching ty plain).run = some (.ok v) ↔
      Takes table part.verdicts matching ty plain v := by
  cases ty with
  | primitive kind =>
      change some (kind.ofPlain matching plain) = _ ↔ _
      constructor
      · intro h
        exact .primitive (Option.some.inj h)
      · rintro ⟨h⟩
        exact congrArg some h
  | optional inner =>
      by_cases hnull : plain = .null
      · subst hnull
        constructor
        · intro h
          obtain rfl : v = .null := by simpa [convertStep, eq_comm] using h
          exact .absent
        · rintro (_ | _)
          · rfl
          · contradiction
      · rw [convertStep_optional hnull]
        constructor
        · exact fun h => .present hnull h
        · rintro (_ | _)
          · contradiction
          · assumption
  | union alternatives => exact convertUnion_eq_ok_iff
  | list item =>
      constructor
      · intro h
        cases plain with
        | array items =>
            simp only [convertStep, run_bind_eq_ok_iff, convertItems_eq_ok_iff] at h
            obtain ⟨vs, hvs, hv⟩ := h
            obtain rfl : v = .list vs := by simpa [eq_comm] using hv
            exact .list hvs
        | _ => simp [convertStep] at h
      · rintro (_ | _)
        simp only [convertStep, run_bind_eq_ok_iff, convertItems_eq_ok_iff]
        exact ⟨_, by assumption, rfl⟩
  | map value =>
      constructor
      · intro h
        cases plain with
        | object members =>
            simp only [convertStep, run_bind_eq_ok_iff, convertEntries_eq_ok_iff] at h
            obtain ⟨entries, hentries, hv⟩ := h
            obtain rfl : v = .map entries := by simpa [eq_comm] using hv
            exact .map hentries
        | _ => simp [convertStep] at h
      · rintro (_ | _)
        simp only [convertStep, run_bind_eq_ok_iff, convertEntries_eq_ok_iff]
        exact ⟨_, by assumption, rfl⟩
  | named name => exact convertNamed_eq_ok_iff

end Inversion

section Monotonicity

variable {table : Table} {verdicts verdicts' : Verdicts} {matching : Matching} {ty : Descriptor}
  {plain : Json} {v : Value}

theorem Verdicts.TakesField.mono {members : List (String × Json)} {field : Field}
    (takes : ∀ matching ty plain v, verdicts.takes matching ty plain v →
      verdicts'.takes matching ty plain v)
    (h : verdicts.TakesField matching members field v) :
    verdicts'.TakesField matching members field v := by
  unfold Verdicts.TakesField at h ⊢
  split at h
  · exact takes _ _ _ _ h
  · exact h

/-- What a step takes it also takes under verdicts that take and refuse more. -/
theorem Takes.mono
    (takes : ∀ matching ty plain v, verdicts.takes matching ty plain v →
      verdicts'.takes matching ty plain v)
    (refuses : ∀ matching ty plain, verdicts.refuses matching ty plain →
      verdicts'.refuses matching ty plain)
    (h : Takes table verdicts matching ty plain v) :
    Takes table verdicts' matching ty plain v := by
  cases h with
  | primitive h => exact .primitive h
  | absent => exact .absent
  | present present h => exact .present present (takes _ _ _ _ h)
  | exactly order refused h =>
      exact .exactly order (fun other hother => refuses _ _ _ (refused other hother))
        (takes _ _ _ _ h)
  | coerced coercing inexact refused h =>
      exact .coerced coercing (fun other hother => refuses _ _ _ (inexact other hother))
        (fun other hother => refuses _ _ _ (refused other hother)) (takes _ _ _ _ h)
  | list h => exact .list (h.imp fun _ _ => takes _ _ _ _)
  | map h => exact .map (h.imp fun _ _ hentry => ⟨hentry.1, takes _ _ _ _ hentry.2⟩)
  | enum found h => exact .enum found h
  | record found declared h =>
      exact .record found declared (h.imp fun _ _ hentry => ⟨hentry.1, hentry.2.mono takes⟩)

end Monotonicity

end AvroBindings
