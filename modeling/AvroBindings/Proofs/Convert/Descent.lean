import Mathlib.Data.Prod.Lex
import Mathlib.Data.Set.Card
import AvroBindings.Proofs.Table.Closed

/-!
# The descent of conversion

Neither the type nor the data gets smaller with every call: a reference unfolds a record that
may refer to itself, and a default puts new data in the place of the old.  Where no default
leads back to its own record there is still no endless chain of calls, so every conversion ends,
with either way of matching.

## Main Definitions

* `Json.holdsObject` — an object stands in a tree.
* `Table.DefaultsLeadAway` — no default with an object in it leads back to the record that
  declares it.
* `Call.rank` — what gets smaller with every call.

## Main Statements

* `Table.Asks.rank_lt` — a call that is asked for has a lower rank.
* `wellFounded_asks` — there is no endless chain of calls, and every conversion ends.

## Design Notes

**The rank.**  A record is only read from an object.  So data that holds none starts no default,
and counts for nothing.  Other data counts for the names that can still be come to from its
type.  A default that holds an object is read at a type that no longer comes to the record of
the default, and comes to nothing that the record does not.  Between two starts the data gets
less deep, or stays and the type gets less high.
-/

namespace AvroBindings

open Conversion

/-! ## Objects in data -/

namespace Json

mutual

/-- Whether an object stands in a tree, at any depth. -/
def holdsObject : Json → Bool
  | .array items => itemsHoldObject items
  | .object _ => true
  | _ => false

/-- Whether an object stands in one of several trees. -/
def itemsHoldObject : List Json → Bool
  | [] => false
  | x :: rest => x.holdsObject || itemsHoldObject rest

end

theorem holdsObject_of_mem {x : Json} {items : List Json} (hx : x ∈ items)
    (h : x.holdsObject = true) :
    (Json.array items).holdsObject = true := by
  rw [holdsObject]
  induction items with
  | nil => simp at hx
  | cons y rest ih =>
      rw [itemsHoldObject, Bool.or_eq_true]
      rcases List.mem_cons.1 hx with rfl | hx
      · exact .inl h
      · exact .inr (ih hx)

end Json

/-! ## Calls -/

/-- An object in the data of a call comes from an object in the data of the step. -/
theorem Table.Asks.holdsObject {table : Table} {part call : Call} (h : table.Asks part call)
    (hobject : part.plain.holdsObject = true) : call.plain.holdsObject = true := by
  obtain ⟨matching, ty, plain⟩ := call
  change part ∈ table.calls matching ty plain at h
  change plain.holdsObject = true
  cases ty with
  | primitive kind => simp [Table.calls] at h
  | optional inner =>
      cases plain with
      | null => simp [Table.calls] at h
      | _ =>
          obtain rfl := List.mem_singleton.1 h
          exact hobject
  | union alternatives =>
      obtain ⟨alternative, -, hcall⟩ := List.mem_flatMap.1 h
      rcases List.mem_pair.1 hcall with rfl | rfl
      · exact hobject
      · exact hobject
  | list item =>
      cases plain with
      | array items =>
          obtain ⟨x, hx, rfl⟩ := List.mem_map.1 h
          exact Json.holdsObject_of_mem hx hobject
      | _ => simp [Table.calls] at h
  | map value =>
      cases plain with
      | object members => rfl
      | _ => simp [Table.calls] at h
  | named name =>
      obtain ⟨r, members, field, plain', -, rfl, -⟩ := Table.mem_calls_named.1 h
      rfl

/-! ## Names that can be come to -/

/-- The names of a table that are reached from a type. -/
def Table.namesReached (table : Table) (ty : Descriptor) : Set String :=
  {name | name ∈ table.names ∧ table.Reaches ty (.named name)}

theorem Table.finite_namesReached (table : Table) (ty : Descriptor) :
    (table.namesReached ty).Finite :=
  (List.finite_toSet table.names).subset fun _ h => h.1

/-- A call comes to no other names than its step. -/
theorem Table.Asks.namesReached_subset {table : Table} {part call : Call}
    (h : table.Asks part call) :
    table.namesReached part.type ⊆ table.namesReached call.type :=
  fun _ ⟨hname, hreach⟩ => ⟨hname, hreach.of_call h⟩

/-- **No default leads back to its record**: if the default of a field holds an object, the type
of the field does not reach the record that declares the field. -/
def Table.DefaultsLeadAway (table : Table) : Prop :=
  ∀ name r field default, table.find? name = some (.record r) → field ∈ r.fields →
    field.default = some default →
    default.holdsObject = true → ¬table.Reaches field.type (.named name)

/-- The type of a field that does not lead back comes to fewer names than a reference to its
record. -/
theorem Table.ncard_namesReached_lt {table : Table} {name : String} {r : Record} {field : Field}
    (found : table.find? name = some (.record r)) (member : field ∈ r.fields)
    (away : ¬table.Reaches field.type (.named name)) :
    (table.namesReached field.type).ncard < (table.namesReached (.named name)).ncard := by
  refine Set.ncard_lt_ncard (Set.ssubset_iff_exists.2 ⟨fun other ⟨hother, hreach⟩ => ?_, name,
    ?_, ?_⟩) (table.finite_namesReached _)
  · exact ⟨hother, .field found member hreach⟩
  · exact ⟨Entries.mem_keys_of_lookup found, .refl _⟩
  · exact fun hname => away hname.2

/-! ## The rank of a call -/

/-- What is left to be come to: the names, for data that holds an object, and nothing for other
data. -/
noncomputable def Call.pending (table : Table) (call : Call) : ℕ :=
  if call.plain.holdsObject then (table.namesReached call.type).ncard + 1 else 0

/-- **The rank of a call**: what is left to be come to, how deep the data is, and how high the
type. -/
noncomputable def Call.rank (table : Table) (call : Call) : ℕ ×ₗ ℕ ×ₗ ℕ :=
  toLex (call.pending table, toLex (call.plain.depth, call.type.height))

theorem Table.Asks.pending_le {table : Table} {part call : Call} (h : table.Asks part call) :
    part.pending table ≤ call.pending table := by
  unfold Call.pending
  by_cases hobject : part.plain.holdsObject = true
  · rw [if_pos hobject, if_pos (h.holdsObject hobject)]
    exact Nat.succ_le_succ
      (Set.ncard_le_ncard h.namesReached_subset (table.finite_namesReached _))
  · rw [if_neg hobject]
    exact Nat.zero_le _

/-- A default leaves less to be come to than the object that lacks the member. -/
theorem Table.DefaultsLeadAway.pending_lt {table : Table} (away : table.DefaultsLeadAway)
    {name : String} {r : Record} {field : Field} {default : Json}
    {members : List (String × Json)} (found : table.find? name = some (.record r))
    (member : field ∈ r.fields) (hdefault : field.default = some default)
    (matching matching' : Matching) :
    Call.pending table ⟨matching', field.type, default⟩ <
      Call.pending table ⟨matching, .named name, .object members⟩ := by
  have hobject : (Json.object members).holdsObject = true := rfl
  unfold Call.pending
  rw [if_pos hobject]
  by_cases hholds : default.holdsObject = true
  · rw [if_pos hholds]
    have hback := away name r field default found member hdefault hholds
    exact Nat.succ_lt_succ (Table.ncard_namesReached_lt found member hback)
  · rw [if_neg hholds]
    exact Nat.succ_pos _

/-- **A call that is asked for has a lower rank**, if no default leads back to its record. -/
theorem Table.Asks.rank_lt {table : Table} (away : table.DefaultsLeadAway) {part call : Call}
    (h : table.Asks part call) : part.rank table < call.rank table := by
  have hpending := h.pending_le
  simp only [Call.rank, Prod.Lex.toLex_lt_toLex]
  rcases Table.calls_cases h with
    ⟨hplain, hheight⟩ | ⟨hdepth, -⟩ | ⟨name, r, htype, found, field, hfield, hdefault, hty⟩
  · rw [hplain]
    exact hpending.lt_or_eq.imp_right fun heq => ⟨heq, .inr ⟨rfl, hheight⟩⟩
  · exact hpending.lt_or_eq.imp_right fun heq => ⟨heq, .inl hdepth⟩
  · obtain ⟨matching, ty, plain⟩ := call
    obtain ⟨matching', ty', default⟩ := part
    obtain rfl : ty = .named name := htype
    obtain rfl : field.type = ty' := hty
    obtain ⟨_, members, _, _, _, rfl, -⟩ := Table.mem_calls_named.1 h
    exact .inl (away.pending_lt found hfield hdefault matching matching')

/-! ## The end of conversion -/

/-- Without an endless chain of calls every conversion ends. -/
theorem conversion_finishes_of_wellFounded {table : Table} (h : WellFounded table.Asks)
    (matching : Matching) (ty : Descriptor) (plain : Json) :
    Finishes (conversion table matching ty plain) := by
  suffices hcall : ∀ call : Call,
      Finishes (conversion table call.matching call.type call.plain) by
    exact hcall ⟨matching, ty, plain⟩
  intro call
  induction call using h.induction with
  | _ call ih =>
      obtain ⟨r, hr⟩ := convertStep_finishes ih
      exact ⟨r, (conversion_eq_step table call.matching call.type call.plain).trans hr⟩

/-- **Conversion comes to an end.**  If no default with an object in it leads back to the record
that declares it, there is no endless chain of calls, and every conversion ends with a value or
a fault, whatever the type and the data are and with either way of matching. -/
theorem wellFounded_asks {table : Table} (away : table.DefaultsLeadAway) :
    WellFounded table.Asks ∧
      ∀ matching ty plain, ∃ r, (conversion table matching ty plain).run = some r := by
  have hwell : WellFounded table.Asks :=
    (InvImage.wf (Call.rank table) wellFounded_lt).mono fun _ _ h => h.rank_lt away
  exact ⟨hwell, conversion_finishes_of_wellFounded hwell⟩

/-- Trees whose nodes refer to themselves, and a grove whose first tree has a default. -/
def Table.grove : Table :=
  ⟨[("tree.Node", .record ⟨"tree.Node",
      [⟨"label", .primitive .string, none, none⟩,
        ⟨"children", .list (.named "tree.Node"), some (.array []), none⟩,
        ⟨"parent", .optional (.named "tree.Node"), some .null, none⟩], none⟩),
    ("tree.Grove", .record ⟨"tree.Grove",
      [⟨"first", .named "tree.Node",
        some (.object [("label", .string "root"),
          ("children", .array [.object [("label", .string "leaf")]])]), none⟩,
        ⟨"others", .list (.named "tree.Grove"), some (.array []), none⟩], none⟩)]⟩

/-- Nodes refer to nodes only, so the default of the first tree does not lead back to the
grove. -/
theorem defaultsLeadAway_grove : Table.grove.DefaultsLeadAway := by
  have hnodes : ∀ target, Table.grove.Reaches (.named "tree.Node") target →
      target.references ⊆ ["tree.Node"] := by
    refine fun target hreach => hreach.references_subset
      (fun name hname r found field hfield => ?_) (List.Subset.refl _)
    obtain rfl := List.mem_singleton.1 hname
    cases found
    simp only [List.mem_cons, List.not_mem_nil, or_false] at hfield
    rcases hfield with rfl | rfl | rfl <;> simp [Descriptor.references]
  intro name r field default found hfield hdefault hobject hreach
  obtain rfl | rfl : name = "tree.Node" ∨ name = "tree.Grove" := by
    simpa [Table.grove, Table.names] using Entries.mem_keys_of_lookup found
  · cases found
    simp only [List.mem_cons, List.not_mem_nil, or_false] at hfield
    rcases hfield with rfl | rfl | rfl <;> cases hdefault <;> cases hobject
  · cases found
    simp only [List.mem_cons, List.not_mem_nil, or_false] at hfield
    rcases hfield with rfl | rfl
    · exact absurd (hnodes _ hreach) (by simp [Descriptor.references])
    · cases hdefault
      cases hobject

/-- The conversions of a grove end: that of an empty object gives the default tree. -/
theorem wellFounded_asks_grove :
    Table.grove.DefaultsLeadAway ∧ WellFounded Table.grove.Asks ∧
      ∃ r, (conversion Table.grove .coercing (.named "tree.Grove") (.object [])).run = some r :=
  have hend := wellFounded_asks defaultsLeadAway_grove
  ⟨defaultsLeadAway_grove, hend.1, hend.2 _ _ _⟩

end AvroBindings
