import AvroBindings.Proofs.Convert.Shape
import AvroBindings.Proofs.Table.Reaches

/-!
# The round trip of typed values

A typed value is read back from its plain form, as long as the unions of its type cannot be
confused.

## Main Definitions

* `StandsAt` — a value stands at a type inside a typed value.

## Main Statements

* `readsBack_of_hasType` — a typed value reads back at its type, with either way of matching.
* `ofPlain?_toPlain` — the same of `Value.ofPlain?`.

## Design Notes

**Why the exact attempt decides.**  The plain form of a float is a float, so what a typed value
was made of is taken exactly, and every union settles in its exact attempt.  There an
alternative of another shape refuses the data.  A reference to an enum may share the shape, but
it gives the same symbol or refuses; only a string that is spelled like a symbol would be lost
to it, which is what the hypothesis on `StandsAt` excludes.
-/

namespace AvroBindings

/-- **A value stands at a type inside a typed value**: at the type itself, or inside a part of
the value that stands at a part of the type. -/
inductive StandsAt (table : Table) : Descriptor → Value → Descriptor → Value → Prop
  | here (ty : Descriptor) (v : Value) : StandsAt table ty v ty v
  | optional {inner ty : Descriptor} {v w : Value} (h : StandsAt table inner v ty w) :
      StandsAt table (.optional inner) v ty w
  | union {alternatives : List Descriptor} {alternative ty : Descriptor} {v w : Value}
      (member : alternative ∈ alternatives) (typed : HasType table alternative v)
      (h : StandsAt table alternative v ty w) : StandsAt table (.union alternatives) v ty w
  | list {item ty : Descriptor} {vs : List Value} {v w : Value} (member : v ∈ vs)
      (h : StandsAt table item v ty w) : StandsAt table (.list item) (.list vs) ty w
  | map {value ty : Descriptor} {entries : List (String × Value)} {entry : String × Value}
      {w : Value} (member : entry ∈ entries) (h : StandsAt table value entry.2 ty w) :
      StandsAt table (.map value) (.map entries) ty w
  | record {name own : String} {r : Record} {fields : List (String × Value)}
      {pair : Field × String × Value} {ty : Descriptor} {w : Value}
      (found : table.find? name = some (.record r)) (member : pair ∈ r.fields.zip fields)
      (h : StandsAt table pair.1.type pair.2.2 ty w) :
      StandsAt table (.named name) (.record own fields) ty w

/-- Only strings and symbols have a string as their plain form. -/
theorem Value.eq_of_toPlain_eq_string {v : Value} {s : String} (h : v.toPlain = .string s) :
    v = .string s ∨ v = .enum s := by
  cases v with
  | string t => exact .inl (congrArg Value.string (Json.string.inj h))
  | enum t => exact .inr (congrArg Value.enum (Json.string.inj h))
  | float x =>
      unfold Value.toPlain Value.plainFloat at h
      split at h <;> contradiction
  | _ => simp [Value.toPlain] at h

/-! ## The union step -/

section Union

variable {table : Table} {alternatives : List Descriptor} {ty : Descriptor} {v : Value}

/-- A symbol reads back at a union that refers to its enum, whatever the other alternatives are:
the references to enums come first. -/
theorem ReadsBack.union_of_enum (hty : ty ∈ alternatives) (henum : table.refersToEnum ty = true)
    (h : ReadsBack table ty v) : ReadsBack table (.union alternatives) v := by
  intro matching
  exact conversion_union_of_enum matching hty henum (h .exact)

/-- A value reads back at a union of another alternative than a reference to an enum, if it is
no string spelled like a symbol that the union refers to. -/
theorem ReadsBack.union_of_shape (disjoint : table.ShapeDisjoint alternatives)
    (apart : ∀ s, v = .string s → ∀ name e, Descriptor.named name ∈ alternatives →
      table.find? name = some (.enum e) → s ∉ e.symbols)
    (hty : ty ∈ alternatives) (henum : table.refersToEnum ty = false)
    (h : ReadsBack table ty v) :
    ReadsBack table (.union alternatives) v := by
  intro matching
  refine conversion_union_of_shape matching disjoint hty henum (fun other hother henum' => ?_)
    (h .exact)
  obtain ⟨name, e, rfl, found⟩ := Table.refersToEnum_iff.1 henum'
  rcases conversion_enum .exact found v.toPlain with
    ⟨symbol, hsymbol, hplain, htaken⟩ | hrefused
  · rcases Value.eq_of_toPlain_eq_string hplain with hv | hv
    · exact absurd hsymbol (apart symbol hv name e hother found)
    · exact .inl (hv ▸ htaken)
  · exact .inr hrefused

end Union

/-! ## The round trip -/

/-- **A typed value reads back at its type**, if the unions reached from the type cannot be
confused and no string that stands at one of them is spelled like a symbol it refers to. -/
theorem readsBack_of_hasType {table : Table} (distinct : table.distinctFields = true)
    {ty : Descriptor} {v : Value} (typed : HasType table ty v)
    (disjoint : ∀ alternatives, table.Reaches ty (.union alternatives) →
      table.ShapeDisjoint alternatives)
    (apart : ∀ alternatives s, StandsAt table ty v (.union alternatives) (.string s) → ∀ name e,
      Descriptor.named name ∈ alternatives → table.find? name = some (.enum e) →
      s ∉ e.symbols) :
    ReadsBack table ty v := by
  induction typed with
  | null => exact .primitive .null
  | boolean b => exact .primitive (.boolean b)
  | int range => exact .primitive (.int range)
  | float finite => exact .primitive (.float finite)
  | string s => exact .primitive (.string s)
  | absent inner => exact .of_admitsNull rfl
  | present typed ih =>
      refine .optional
        (ih (fun alternatives hreach => disjoint alternatives (.optional hreach)) ?_)
      exact fun alternatives s hstands => apart alternatives s (.optional hstands)
  | @union alternatives ty v alternative typed ih =>
      have hback : ReadsBack table ty v :=
        ih (fun others hreach => disjoint others (.union alternative hreach))
          fun others s hstands => apart others s (.union alternative typed hstands)
      cases henum : table.refersToEnum ty with
      | true => exact hback.union_of_enum alternative henum
      | false =>
          refine hback.union_of_shape (disjoint alternatives (.refl _))
            (fun s hv => ?_) alternative henum
          subst hv
          exact apart alternatives s (.here _ _)
  | list h ih =>
      refine .list fun v hv =>
        ih v hv (fun alternatives hreach => disjoint alternatives (.list hreach)) ?_
      exact fun alternatives s hstands => apart alternatives s (.list hv hstands)
  | map h ih =>
      refine .map fun entry hentry =>
        ih entry hentry (fun alternatives hreach => disjoint alternatives (.map hreach)) ?_
      exact fun alternatives s hstands => apart alternatives s (.map hentry hstands)
  | @enum name symbol e found declared =>
      intro matching
      exact conversion_eq_ok_iff.2 (.enum found declared)
  | record found named names h ih =>
      subst named
      refine .record found (Table.nodup_of_find? distinct found) names fun pair hpair => ?_
      have hfield := (List.of_mem_zip hpair).1
      exact ih pair hpair
        (fun alternatives hreach => disjoint alternatives (.field found hfield hreach))
        fun alternatives s hstands => apart alternatives s (.record found hpair hstands)

/-! ### A value of `Table.nodes` -/

/-- A node with a symbol and no next one. -/
def Value.lastNode : Value :=
  .record "t.Node" [("kind", .enum "EnumB"), ("weight", .float (.zero true)), ("next", .null)]

/-- A node with a string where a symbol could stand, and with a next node. -/
def Value.firstNode : Value :=
  .record "t.Node" [("kind", .string "other"), ("weight", .float (.zero false)),
    ("next", .lastNode)]

theorem hasType_lastNode : HasType Table.nodes (.named "t.Node") .lastNode := by
  refine .record rfl rfl rfl fun pair hpair => ?_
  rcases hpair with _ | ⟨_, _ | ⟨_, _ | ⟨_, ⟨⟩⟩⟩⟩
  · have hsymbol : HasType Table.nodes (.named "t.Choice") (.enum "EnumB") :=
      .enum rfl (show "EnumB" ∈ ["EnumA", "EnumB"] by decide)
    exact .union (by simp) hsymbol
  · exact .float (by decide)
  · exact .absent _

theorem hasType_firstNode : HasType Table.nodes (.named "t.Node") .firstNode := by
  refine .record rfl rfl rfl fun pair hpair => ?_
  rcases hpair with _ | ⟨_, _ | ⟨_, _ | ⟨_, ⟨⟩⟩⟩⟩
  · exact .union (by simp) (.string "other")
  · exact .float (by decide)
  · exact .present hasType_lastNode

theorem not_standsAt_lastNode (alternatives : List Descriptor) (s : String) :
    ¬StandsAt Table.nodes (.named "t.Node") .lastNode (.union alternatives) (.string s) := by
  rintro (_ | _ | _ | _ | _ | ⟨found, member, h⟩)
  cases found
  rcases member with _ | ⟨_, _ | ⟨_, _ | ⟨_, ⟨⟩⟩⟩⟩
  · cases h with
    | union member typed h => rcases member with _ | ⟨_, _ | ⟨_, _ | ⟨_, ⟨⟩⟩⟩⟩ <;> cases h
  · cases h
  · cases h with
    | optional h => cases h

theorem eq_of_standsAt_firstNode {alternatives : List Descriptor} {s : String}
    (h : StandsAt Table.nodes (.named "t.Node") .firstNode (.union alternatives) (.string s)) :
    s = "other" ∧
    alternatives = [.primitive .float, .primitive .string, .named "t.Choice"] := by
  rcases h with _ | _ | _ | _ | _ | ⟨found, member, h⟩
  cases found
  rcases member with _ | ⟨_, _ | ⟨_, _ | ⟨_, ⟨⟩⟩⟩⟩
  · cases h with
    | here => exact ⟨rfl, rfl⟩
    | union member typed h => rcases member with _ | ⟨_, _ | ⟨_, _ | ⟨_, ⟨⟩⟩⟩⟩ <;> cases h
  · cases h
  · cases h with
    | optional h => exact absurd h (not_standsAt_lastNode alternatives s)

/-- **The round trip.**  A typed value is read back from its plain form. -/
theorem ofPlain?_toPlain {table : Table} (distinct : table.distinctFields = true)
    {ty : Descriptor} {v : Value} (typed : HasType table ty v)
    (disjoint : ∀ alternatives, table.Reaches ty (.union alternatives) →
      table.ShapeDisjoint alternatives)
    (apart : ∀ alternatives s, StandsAt table ty v (.union alternatives) (.string s) → ∀ name e,
      Descriptor.named name ∈ alternatives → table.find? name = some (.enum e) →
      s ∉ e.symbols) :
    Value.ofPlain? table ty v.toPlain = some (.ok v) := by
  rw [Value.ofPlain?_eq_conversion]
  exact readsBack_of_hasType distinct typed disjoint apart .coercing

/-- Both nodes come back, the symbol as a symbol and the string as a string. -/
theorem ofPlain?_toPlain_firstNode :
    Table.nodes.distinctFields = true ∧ HasType Table.nodes (.named "t.Node") .firstNode ∧
      (∀ alternatives, Table.nodes.Reaches (.named "t.Node") (.union alternatives) →
        Table.nodes.ShapeDisjoint alternatives) ∧
      (∀ alternatives s,
        StandsAt Table.nodes (.named "t.Node") .firstNode (.union alternatives) (.string s) →
        ∀ name e, Descriptor.named name ∈ alternatives →
        Table.nodes.find? name = some (.enum e) → s ∉ e.symbols) ∧
      Value.ofPlain? Table.nodes (.named "t.Node") Value.firstNode.toPlain =
        some (.ok .firstNode) := by
  have distinct : Table.nodes.distinctFields = true := by decide
  have disjoint : ∀ alternatives, Table.nodes.Reaches (.named "t.Node") (.union alternatives) →
      Table.nodes.ShapeDisjoint alternatives := by
    have hunions : ∀ alternatives ∈ Table.nodes.unions (.named "t.Node"),
        Table.nodes.ShapeDisjoint alternatives := by decide
    exact fun alternatives hreach => hunions alternatives hreach.mem_unions
  have apart : ∀ alternatives s,
      StandsAt Table.nodes (.named "t.Node") .firstNode (.union alternatives) (.string s) →
      ∀ name e, Descriptor.named name ∈ alternatives → Table.nodes.find? name = some (.enum e) →
      s ∉ e.symbols := by
    intro alternatives s hstands name e hname found
    obtain ⟨rfl, rfl⟩ := eq_of_standsAt_firstNode hstands
    obtain rfl : name = "t.Choice" := by simpa using hname
    cases found
    decide
  exact ⟨distinct, hasType_firstNode, disjoint, apart,
    ofPlain?_toPlain distinct hasType_firstNode disjoint apart⟩

end AvroBindings
