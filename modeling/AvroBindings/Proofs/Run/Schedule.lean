import Mathlib.Data.List.Nodup
import AvroBindings.Proofs.Table.Closed

/-!
# What is written for a document

The schemas that a run over a parsed document writes are the entries of its registry, a root
that is one of them last.

## Main Definitions

* `ParsedSchema.schedule` — the schemas that are written, in order.
* `ParsedSchema.rootLast` — the entries of the registry in that order.

## Main Statements

* `ParsedSchema.rootLast_perm` — these are the entries of the registry.
* `ParsedSchema.schedule_eq` — the schemas that are written are theirs.
* `ParsedSchema.describes_rootLast` — one type is described for each of them.

## Design Notes

A root that is a definition is written last instead of in its place in the registry, where it is
as well.  Which entry that is, is told by the `name` member of the root.  A root of another kind
may have such a member too, but it is not described, so nothing is said of it here.
-/

namespace AvroBindings

/-- The entry of a key is all that is kept of entries without repeated keys when the others are
dropped. -/
theorem Entries.filter_key_eq {α : Type} {key : String} {value : α} {entries : Entries α}
    (hnodup : (keys entries).Nodup) (h : (key, value) ∈ entries) :
    entries.filter (fun entry => some key = some entry.1) = [(key, value)] := by
  obtain ⟨before, after, rfl⟩ := List.append_of_mem h
  rw [keys, List.map_append, List.map_cons, List.nodup_middle, List.nodup_cons, List.mem_append,
    not_or] at hnodup
  obtain ⟨⟨hbefore, hafter⟩, -⟩ := hnodup
  have hdropped : ∀ others : Entries α, key ∉ keys others →
      others.filter (fun entry => some key = some entry.1) = [] := by
    intro others hother
    refine List.filter_eq_nil_iff.2 fun entry hentry => ?_
    have hne : key ≠ entry.1 := fun heq => hother (heq ▸ List.mem_map_of_mem hentry)
    simpa using hne
  rw [List.filter_append, List.filter_cons_of_pos (by simp), hdropped before hbefore,
    hdropped after hafter, List.nil_append]

namespace ParsedSchema

variable {parsed : ParsedSchema}

/-- **The schemas that are written for a document**: those of its registry but for the root, and
then the root. -/
def schedule (parsed : ParsedSchema) : List Json :=
  (parsed.named.filter fun entry => parsed.rootName? ≠ some entry.1).map Prod.snd ++
    match parsed.schema with
    | .object members => [.object members]
    | _ => []

/-- **The registry in the order in which it is written**: the entry with the name of the root
last. -/
def rootLast (parsed : ParsedSchema) : Registry :=
  parsed.named.filter (fun entry => parsed.rootName? ≠ some entry.1) ++
    parsed.named.filter fun entry => parsed.rootName? = some entry.1

/-- **No entry is lost and none is repeated** when the root is put last. -/
theorem rootLast_perm (parsed : ParsedSchema) : parsed.rootLast.Perm parsed.named := by
  have hperm :=
    List.filter_append_perm (fun entry => decide (parsed.rootName? = some entry.1)) parsed.named
  simp only [← decide_not] at hperm
  exact List.perm_append_comm.trans hperm

/-- Only an object has a name as a root. -/
theorem rootName?_eq_none (h : ∀ members, parsed.schema ≠ .object members) :
    parsed.rootName? = none := by
  rw [rootName?]
  cases hschema : parsed.schema with
  | object members => exact absurd hschema (h members)
  | _ => rfl

/-- Without an object as root, the registry is written as it is. -/
theorem rootLast_eq_named (h : ∀ members, parsed.schema ≠ .object members) :
    parsed.rootLast = parsed.named := by
  rw [rootLast, rootName?_eq_none h, List.filter_eq_self.2 (by simp),
    List.filter_eq_nil_iff.2 (by simp), List.append_nil]

/-- A root that is an entry is written last. -/
theorem rootLast_eq_of_root {name : String} (hname : parsed.rootName? = some name)
    (hmem : (name, parsed.schema) ∈ parsed.named)
    (hdistinct : (Entries.keys parsed.named).Nodup) :
    parsed.rootLast = parsed.named.filter (fun entry => some name ≠ some entry.1) ++
      [(name, parsed.schema)] := by
  rw [rootLast, hname, Entries.filter_key_eq hdistinct hmem]

/-- A registry in another order has a schedule in another order. -/
theorem schedule_perm_of_perm {registry : Registry} (h : registry.Perm parsed.named) :
    (ParsedSchema.mk parsed.schema registry).schedule.Perm parsed.schedule :=
  ((h.filter _).map _).append_right _

section Described

variable {lead : String} {types : List NamedType} (hread : parsed.Read)
  (hdescribed : List.Forall₂ (fun schema type => NamedType.ofSchema lead schema = .ok type)
    parsed.schedule types)

include hread hdescribed

/-- An object that is described as a root is an entry of the registry. -/
theorem exists_root {members : List (String × Json)}
    (hschema : parsed.schema = .object members) :
    ∃ name, parsed.rootName? = some name ∧ (name, parsed.schema) ∈ parsed.named := by
  have hlast : parsed.schema ∈ parsed.schedule := by
    unfold schedule
    simp [hschema]
  obtain ⟨_, -, hroot⟩ := exists_right_of_forall₂ hdescribed hlast
  exact hread.exists_entry_of_root (NamedType.isDefinition_of_ofSchema hroot)

/-- **The schemas that are written are those of the registry**, a root that is a definition
last. -/
theorem schedule_eq : parsed.schedule = parsed.rootLast.map Prod.snd := by
  by_cases hobject : ∃ members, parsed.schema = .object members
  · obtain ⟨members, hschema⟩ := hobject
    obtain ⟨name, hname, hmem⟩ := exists_root hread hdescribed hschema
    rw [rootLast_eq_of_root hname hmem hread.sound.distinct, schedule, hname, hschema,
      List.map_append]
    rfl
  · have hother : ∀ members, parsed.schema ≠ .object members :=
      fun members hschema => hobject ⟨members, hschema⟩
    have hroot : (match parsed.schema with
        | .object members => [Json.object members]
        | _ => []) = [] := by
      cases hschema : parsed.schema with
      | object members => exact absurd hschema (hother members)
      | _ => rfl
    rw [rootLast_eq_named hother, schedule, hroot, rootName?_eq_none hother,
      List.filter_eq_self.2 (by simp), List.append_nil]

/-- **One type is described for each entry**, in the order in which they are written. -/
theorem describes_rootLast : Registry.Describes lead parsed.rootLast types := by
  refine hread.sound.describes (rootLast_perm parsed).subset ?_
  rwa [← schedule_eq hread hdescribed]

/-- A type that is written describes an entry, under the name of the entry. -/
theorem exists_entry_of_mem {type : NamedType} (h : type ∈ types) :
    ∃ entry ∈ parsed.named, NamedType.ofSchema lead entry.2 = .ok type ∧
      type.name = Name.stripPrefix lead entry.1 := by
  obtain ⟨entry, hentry, htype⟩ :=
    exists_left_of_forall₂ (describes_rootLast hread hdescribed) h
  exact ⟨entry, (rootLast_perm parsed).subset hentry, htype⟩

/-- Every entry is described by a type that is written. -/
theorem exists_mem_of_entry {entry : String × Json} (h : entry ∈ parsed.named) :
    ∃ type ∈ types, NamedType.ofSchema lead entry.2 = .ok type ∧
    type.name = Name.stripPrefix lead entry.1 :=
  exists_right_of_forall₂ (describes_rootLast hread hdescribed)
    ((rootLast_perm parsed).symm.subset h)

/-- **One type is written for each entry.** -/
theorem names_perm :
    (types.map NamedType.name).Perm
      ((Entries.keys parsed.named).map (Name.stripPrefix lead)) := by
  rw [(describes_rootLast hread hdescribed).names_eq]
  exact ((rootLast_perm parsed).map _).map _

end Described

end ParsedSchema

end AvroBindings
