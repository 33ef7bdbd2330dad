import Mathlib.Data.List.Pairwise
import AvroBindings.Proofs.Convert.ReadBack

/-!
# Shapes of plain data

The kind of plain data that a type takes exactly, told from the outside of the data alone.

## Main Definitions

* `Shape`, `Json.shape` — the shapes of plain data; an integer and a float are two shapes.
* `Json.coercedShape` — the shape as which data is taken by coercion.
* `Table.shapes` — the shapes of the data that a type takes, looking through optionals and
  unions.
* `Table.ShapeDisjoint` — the alternatives of a union that are no references to enums take
  different shapes.

## Main Statements

* `refused_of_shape` — data of another shape is refused.
* `refused_of_coercedShape` — coercion takes nothing new but an integer as a float.
* `conversion_union_symbol` — a symbol is read as one wherever a union refers to its enum.
* `conversion_union_of_shape`, `conversion_union_of_coercedShape` — of alternatives that cannot
  be confused, the one that takes the data decides.
-/

namespace AvroBindings

open Conversion

/-- A shape of plain data. -/
inductive Shape where
  | null
  | boolean
  | integer
  | float
  | string
  | array
  | object
deriving DecidableEq

/-- The shape of plain data. -/
def Json.shape : Json → Shape
  | .null => .null
  | .bool _ => .boolean
  | .number (.int _) => .integer
  | .number (.float _) => .float
  | .string _ => .string
  | .array _ => .array
  | .object _ => .object

/-- The shape of the data of a primitive kind. -/
def Primitive.shape : Primitive → Shape
  | .string => .string
  | .integer => .integer
  | .boolean => .boolean
  | .float => .float
  | .null => .null

mutual

/-- The shapes that a type takes. -/
def Table.shapes (table : Table) : Descriptor → List Shape
  | .primitive kind => [kind.shape]
  | .optional inner => .null :: table.shapes inner
  | .union alternatives => table.shapesOfAny alternatives
  | .list _ => [.array]
  | .map _ => [.object]
  | .named name =>
    match table.find? name with
    | some (.record _) => [.object]
    | some (.enum _) => [.string]
    | none => []

/-- The shapes that one of several types takes. -/
def Table.shapesOfAny (table : Table) : List Descriptor → List Shape
  | [] => []
  | ty :: rest => table.shapes ty ++ table.shapesOfAny rest

end

theorem Table.mem_shapesOfAny {table : Table} {types : List Descriptor} {shape : Shape} :
    shape ∈ table.shapesOfAny types ↔ ∃ ty ∈ types, shape ∈ table.shapes ty := by
  induction types with
  | nil => simp [Table.shapesOfAny]
  | cons ty rest ih => simp [Table.shapesOfAny, ih]

/-- Two types take no shape in common. -/
def Table.Apart (table : Table) (ty other : Descriptor) : Prop :=
  ∀ shape ∈ table.shapes ty, shape ∉ table.shapes other

instance (table : Table) (ty other : Descriptor) : Decidable (table.Apart ty other) :=
  inferInstanceAs (Decidable (∀ shape ∈ table.shapes ty, shape ∉ table.shapes other))

instance (table : Table) : Std.Symm table.Apart :=
  ⟨fun _ _ apart shape hother hty => apart shape hty hother⟩

/-- **The alternatives of a union cannot be confused.**  Apart from the references to enums,
which all take strings, no two of them take data of one shape. -/
def Table.ShapeDisjoint (table : Table) (alternatives : List Descriptor) : Prop :=
  (alternatives.filter fun ty => !table.refersToEnum ty).Pairwise table.Apart

instance (table : Table) (alternatives : List Descriptor) :
    Decidable (table.ShapeDisjoint alternatives) :=
  inferInstanceAs (Decidable (List.Pairwise _ _))

/-- Two alternatives that are no references to enums and share a shape are the same. -/
theorem Table.ShapeDisjoint.eq {table : Table} {alternatives : List Descriptor}
    (disjoint : table.ShapeDisjoint alternatives) {ty other : Descriptor} {shape : Shape}
    (hty : ty ∈ alternatives) (hother : other ∈ alternatives)
    (henum : table.refersToEnum ty = false) (henum' : table.refersToEnum other = false)
    (hshape : shape ∈ table.shapes ty) (hshape' : shape ∈ table.shapes other) : ty = other := by
  by_contra hne
  have hmem : ty ∈ alternatives.filter fun ty => !table.refersToEnum ty :=
    List.mem_filter.2 ⟨hty, by simp [henum]⟩
  have hmem' : other ∈ alternatives.filter fun ty => !table.refersToEnum ty :=
    List.mem_filter.2 ⟨hother, by simp [henum']⟩
  exact List.Pairwise.forall disjoint hmem hmem' hne shape hshape hshape'

/-! ## Refusal by shape -/

/-- **Data of another shape is refused**, except that an integer may be widened where numbers
are not matched exactly. -/
theorem refused_of_shape {table : Table} {matching : Matching} {ty : Descriptor} {plain : Json}
    (hmatching : matching = .coercing → plain.shape ≠ .integer)
    (h : plain.shape ∉ table.shapes ty) :
    Refused table matching ty plain := by
  induction ty using Descriptor.induction generalizing matching with
  | primitive kind =>
      rw [Table.shapes, List.mem_singleton] at h
      refine ⟨.mismatch kind.pythonName plain, ?_⟩
      rw [conversion_primitive, Option.some.injEq]
      unfold Primitive.ofPlain
      -- Widening is the one branch that takes a shape that is not that of the kind.
      split
      case h_5 n =>
        cases matching with
        | exact => rfl
        | coercing => exact absurd rfl (hmatching rfl)
      case h_7 => rfl
      all_goals exact absurd rfl h
  | optional inner ih =>
      rw [Table.shapes, List.mem_cons, not_or] at h
      have present : plain ≠ .null := by
        rintro rfl
        exact h.1 rfl
      obtain ⟨e, he⟩ := ih hmatching h.2
      exact ⟨e, by rw [conversion_optional table matching inner present, he]⟩
  | union alternatives ih =>
      have hnone : ∀ ty ∈ alternatives, plain.shape ∉ table.shapes ty := by
        intro ty hty hshape
        exact h (Table.mem_shapesOfAny.2 ⟨ty, hty, hshape⟩)
      exact refused_union (fun ty hty => ih ty hty (by simp) (hnone ty hty))
        fun ty hty => ih ty hty hmatching (hnone ty hty)
  | list item =>
      refine ⟨.mismatch (Descriptor.list item).text plain, ?_⟩
      rw [conversion_eq_step]
      cases plain with
      | array items => exact absurd (List.mem_singleton_self _) h
      | _ => rfl
  | map value =>
      refine ⟨.mismatch (Descriptor.map value).text plain, ?_⟩
      rw [conversion_eq_step]
      cases plain with
      | object members => exact absurd (List.mem_singleton_self _) h
      | _ => rfl
  | named name =>
      unfold Refused
      rw [conversion_eq_step, convertStep, convertNamed]
      rw [Table.shapes] at h
      cases hfind : table.find? name with
      | none => exact ⟨_, rfl⟩
      | some type =>
          rw [hfind] at h
          cases type with
          | record r =>
              cases plain with
              | object members => exact absurd (List.mem_singleton_self _) h
              | _ => exact ⟨_, rfl⟩
          | enum e =>
              cases plain with
              | string symbol => exact absurd (List.mem_singleton_self _) h
              | _ => exact ⟨_, rfl⟩

/-- The shape as which data is taken by coercion: an integer is taken as a float. -/
def Json.coercedShape : Json → Shape
  | .number (.int _) => .float
  | plain => plain.shape

/-- An integer that is refused exactly is widened by nothing but a `float`. -/
theorem refused_int_of_shape {table : Table} {ty : Descriptor} {n : Int}
    (inexact : Refused table .exact ty (.number (.int n))) (h : Shape.float ∉ table.shapes ty) :
    Refused table .coercing ty (.number (.int n)) := by
  induction ty using Descriptor.induction with
  | primitive kind =>
      rw [Refused, conversion_primitive] at inexact ⊢
      cases kind with
      | float => exact absurd (List.mem_singleton_self _) h
      | _ => exact inexact
  | optional inner ih =>
      rw [Table.shapes, List.mem_cons, not_or] at h
      rw [Refused, conversion_optional table _ inner (by simp)] at inexact ⊢
      exact ih inexact h.2
  | union alternatives ih =>
      obtain ⟨e, he⟩ := inexact
      rw [conversion_eq_step] at he
      obtain ⟨inexact, -, -⟩ := convertUnion_eq_error_iff.1 he
      refine refused_union inexact fun ty hty => ih ty hty (inexact ty hty) fun hshape => ?_
      exact h (Table.mem_shapesOfAny.2 ⟨ty, hty, hshape⟩)
  | list item => exact ⟨_, by rw [conversion_eq_step]; rfl⟩
  | map value => exact ⟨_, by rw [conversion_eq_step]; rfl⟩
  | named name =>
      unfold Refused
      rw [conversion_eq_step, convertStep, convertNamed]
      cases table.find? name with
      | none => exact ⟨_, rfl⟩
      | some type => cases type <;> exact ⟨_, rfl⟩

/-- **Data that is refused exactly is refused by coercion**, unless the type takes the shape as
which the data would be taken. -/
theorem refused_of_coercedShape {table : Table} {ty : Descriptor} {plain : Json}
    (inexact : Refused table .exact ty plain) (h : plain.coercedShape ∉ table.shapes ty) :
    Refused table .coercing ty plain := by
  cases plain with
  | number number =>
      cases number with
      | int n => exact refused_int_of_shape inexact h
      | float x => exact refused_of_shape (by simp [Json.shape]) h
  | _ => exact refused_of_shape (by simp [Json.shape]) h

/-! ## References to enums -/

/-- A reference to an enum takes the symbols of the enum and refuses everything else. -/
theorem conversion_enum {table : Table} (matching : Matching) {name : String} {e : Enumeration}
    (found : table.find? name = some (.enum e)) (plain : Json) :
    (∃ symbol ∈ e.symbols, plain = .string symbol ∧
      (conversion table matching (.named name) plain).run = some (.ok (.enum symbol))) ∨
      Refused table matching (.named name) plain := by
  unfold Refused
  rw [conversion_eq_step, convertStep, convertNamed, found]
  cases plain with
  | string symbol =>
      by_cases hsymbol : symbol ∈ e.symbols
      · exact .inl ⟨symbol, hsymbol, rfl, by simp [Enumeration.ofPlain, hsymbol]⟩
      · exact .inr ⟨.unknownSymbol e.name symbol, by simp [Enumeration.ofPlain, hsymbol]⟩
  | _ => exact .inr ⟨_, rfl⟩

/-- A type that refers to an enum is a name under which the table has the enum. -/
theorem Table.refersToEnum_iff {table : Table} {ty : Descriptor} :
    table.refersToEnum ty = true ↔
      ∃ name e, ty = .named name ∧ table.find? name = some (.enum e) := by
  cases ty with
  | named name =>
      cases hfind : table.find? name with
      | none => simp [Table.refersToEnum, Table.enum?, hfind]
      | some type =>
          cases type <;> simp [Table.refersToEnum, Table.enum?, NamedType.enum?, hfind]
  | _ => simp [Table.refersToEnum]

/-- A reference to an enum that refuses data exactly refuses it however it is matched. -/
theorem refused_of_refersToEnum {table : Table} {matching : Matching} {ty : Descriptor}
    {plain : Json} (henum : table.refersToEnum ty = true) (h : Refused table .exact ty plain) :
    Refused table matching ty plain := by
  obtain ⟨name, e, rfl, found⟩ := Table.refersToEnum_iff.1 henum
  refine (conversion_enum matching found plain).resolve_left ?_
  rintro ⟨symbol, hsymbol, rfl, -⟩
  have htaken : (conversion table .exact (.named name) (.string symbol)).run =
      some (.ok (.enum symbol)) :=
    conversion_eq_ok_iff.2 (.enum found hsymbol)
  exact h.not_taken htaken

/-- **A symbol of an enum that a union refers to is read as the symbol**: references to enums
are tried before all others. -/
theorem conversion_union_symbol {table : Table} {alternatives : List Descriptor}
    {name symbol : String} {e : Enumeration} (matching : Matching)
    (member : .named name ∈ alternatives) (found : table.find? name = some (.enum e))
    (declared : symbol ∈ e.symbols) :
    (conversion table matching (.union alternatives) (.string symbol)).run =
      some (.ok (.enum symbol)) := by
  refine conversion_union_of_order rfl (fun ty hty => ?_) ⟨.named name, ?_, ?_⟩
  · -- Every other reference that is tried first gives the same symbol or refuses it.
    obtain ⟨other, e', rfl, found'⟩ := Table.refersToEnum_iff.1 (List.mem_filter.1 hty).2
    rcases conversion_enum .exact found' (.string symbol) with
      ⟨symbol', -, hsymbol, htaken⟩ | hrefused
    · obtain rfl := Json.string.inj hsymbol
      exact .inl htaken
    · exact .inr hrefused
  · exact List.mem_filter.2 ⟨member, Table.refersToEnum_iff.2 ⟨name, e, rfl, found⟩⟩
  · exact conversion_eq_ok_iff.2 (.enum found declared)

/-! ## Unions that cannot be confused -/

section Disjoint

variable {table : Table} {alternatives : List Descriptor} {ty : Descriptor} {plain : Json}
  {v : Value}

/-- A reference to an enum decides what a union gives, whatever the other alternatives are. -/
theorem conversion_union_of_enum (matching : Matching) (hty : ty ∈ alternatives)
    (henum : table.refersToEnum ty = true)
    (taken : (conversion table .exact ty plain).run = some (.ok v)) :
    (conversion table matching (.union alternatives) plain).run = some (.ok v) := by
  obtain ⟨name, e, rfl, found⟩ := Table.refersToEnum_iff.1 henum
  rcases conversion_enum .exact found plain with ⟨symbol, declared, rfl, hsymbol⟩ | hrefused
  · obtain rfl : v = .enum symbol := by simpa using taken.symm.trans hsymbol
    exact conversion_union_symbol matching hty found declared
  · exact absurd taken hrefused.not_taken

/-- **Of alternatives that cannot be confused, the one that takes the data exactly decides**
what the union gives, if no reference to an enum has it otherwise. -/
theorem conversion_union_of_shape (matching : Matching)
    (disjoint : table.ShapeDisjoint alternatives) (hty : ty ∈ alternatives)
    (henum : table.refersToEnum ty = false)
    (enums : ∀ other ∈ alternatives, table.refersToEnum other = true →
      (conversion table .exact other plain).run = some (.ok v) ∨
      Refused table .exact other plain)
    (taken : (conversion table .exact ty plain).run = some (.ok v)) :
    (conversion table matching (.union alternatives) plain).run = some (.ok v) := by
  have hshape : plain.shape ∈ table.shapes ty := by
    by_contra hshape
    exact (refused_of_shape (by simp) hshape).not_taken taken
  refine conversion_union_of_unanimous (fun other hother => ?_) ⟨ty, hty, taken⟩
  cases henum' : table.refersToEnum other with
  | true => exact enums other hother henum'
  | false =>
      by_cases hshape' : plain.shape ∈ table.shapes other
      · obtain rfl := disjoint.eq hty hother henum henum' hshape hshape'
        exact .inl taken
      · exact .inr (refused_of_shape (by simp) hshape')

/-- **The same by coercion**: of alternatives that cannot be confused and all refuse the data
exactly, the one that takes it decides. -/
theorem conversion_union_of_coercedShape (disjoint : table.ShapeDisjoint alternatives)
    (inexact : ∀ ty ∈ alternatives, Refused table .exact ty plain) (hty : ty ∈ alternatives)
    (taken : (conversion table .coercing ty plain).run = some (.ok v)) :
    (conversion table .coercing (.union alternatives) plain).run = some (.ok v) := by
  have henum : table.refersToEnum ty = false := by
    rw [Bool.eq_false_iff]
    exact fun henum => (refused_of_refersToEnum henum (inexact ty hty)).not_taken taken
  have hshape : plain.coercedShape ∈ table.shapes ty := by
    by_contra hshape
    exact (refused_of_coercedShape (inexact ty hty) hshape).not_taken taken
  refine conversion_union_of_unanimous_coercing inexact (fun other hother => ?_)
    ⟨ty, hty, taken⟩
  cases henum' : table.refersToEnum other with
  | true => exact .inr (refused_of_refersToEnum henum' (inexact other hother))
  | false =>
      by_cases hshape' : plain.coercedShape ∈ table.shapes other
      · obtain rfl := disjoint.eq hty hother henum henum' hshape hshape'
        exact .inl taken
      · exact .inr (refused_of_coercedShape (inexact other hother) hshape')

end Disjoint

end AvroBindings
