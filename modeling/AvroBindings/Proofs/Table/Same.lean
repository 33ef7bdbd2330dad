import AvroBindings.Proofs.NamedType.Same
import AvroBindings.Proofs.Table.Stripped

/-!
# Equal tables

Documents that define equal types under the same names have equal tables, whatever the order of
the definitions.

## Main Definitions

* `Table.Same` — equality of tables, the order of entries aside.
* `Registry.DescribesAs` — the entries of one registry are described as those of another.

## Main Statements

* `Table.exists_ofParsed_iff_forall` — there is a table exactly if every entry is described.
* `Table.same_ofParsed` — documents with the same names and equal descriptions have equal
  tables.

## Design Notes

Where names become one without their leading text, the order of the definitions decides which
type is kept.  So equal descriptions give equal tables only where names stay apart.
-/

namespace AvroBindings

/-- **Two tables are equal**, the order of entries aside: under each name they have equal types,
or none. -/
def Table.Same (table other : Table) : Prop :=
  ∀ name, Option.Rel NamedType.Same (table.find? name) (other.find? name)

/-- **The entries of a registry are described as those of another**: an entry that is described
has an equal description under the same name there. -/
def Registry.DescribesAs (lead : String) (registry other : Registry) : Prop :=
  ∀ name x y type, (name, x) ∈ registry → (name, y) ∈ other →
    NamedType.ofSchema lead x = .ok type →
    ∃ type', NamedType.ofSchema lead y = .ok type' ∧ type.Same type'

namespace Table

variable {parsed parsed' : ParsedSchema} {lead : String}

/-- There is a table exactly if every entry of the registry is described. -/
theorem exists_ofParsed_iff_forall :
    (∃ table, ofParsed parsed lead = .ok table) ↔
      ∀ entry ∈ parsed.named, ∃ type, NamedType.ofSchema lead entry.2 = .ok type := by
  rw [← List.forall_mem_map (f := Prod.snd) (P := fun schema => ∃ type,
    NamedType.ofSchema lead schema = .ok type), ← exists_forall₂_iff]
  simp only [ofParsed, describeAll_eq_ok_iff]
  constructor
  · rintro ⟨_, types, htypes, -⟩
    exact ⟨types, htypes⟩
  · rintro ⟨types, htypes⟩
    exact ⟨_, types, htypes, rfl⟩

/-- A document has a table if it has the names of another that has one, and describes what that
describes. -/
theorem exists_ofParsed_of_describesAs
    (hkeys : ∀ name, name ∈ Entries.keys parsed.named ↔ name ∈ Entries.keys parsed'.named)
    (hdescribes : Registry.DescribesAs lead parsed.named parsed'.named)
    (h : ∃ table, ofParsed parsed lead = .ok table) :
    ∃ table, ofParsed parsed' lead = .ok table := by
  rw [exists_ofParsed_iff_forall] at h ⊢
  rintro ⟨name, y⟩ hentry
  obtain ⟨x, hx⟩ := Entries.mem_keys.1 ((hkeys name).2 (Entries.mem_keys.2 ⟨y, hentry⟩))
  obtain ⟨type, htype⟩ := h _ hx
  obtain ⟨type', htype', -⟩ := hdescribes name x y type hx hentry htype
  exact ⟨type', htype'⟩

/-- **Documents with the same names and equal descriptions have equal tables**, if their names
stay apart without the leading text. -/
theorem same_ofParsed (hread : parsed.Read) (hread' : parsed'.Read)
    (hkeys : ∀ name, name ∈ Entries.keys parsed.named ↔ name ∈ Entries.keys parsed'.named)
    (hdescribes : Registry.DescribesAs lead parsed.named parsed'.named)
    (hapart : parsed.named.StripsApart lead) {table table' : Table}
    (h : ofParsed parsed lead = .ok table) (h' : ofParsed parsed' lead = .ok table') :
    table.Same table' := by
  have hapart' : parsed'.named.StripsApart lead := fun name hname other hother =>
    hapart name ((hkeys name).2 hname) other ((hkeys other).2 hother)
  obtain ⟨-, hnames, -, -, -, hfound⟩ := stripped_ofParsed hread h
  obtain ⟨-, hnames', -, -, -, hfound'⟩ := stripped_ofParsed hread' h'
  intro name
  by_cases hname : name ∈ table.names
  · obtain ⟨full, hfull, rfl⟩ := (hnames name).1 hname
    obtain ⟨x, hx⟩ := Entries.mem_keys.1 hfull
    obtain ⟨y, hy⟩ := Entries.mem_keys.1 ((hkeys full).1 hfull)
    obtain ⟨type, htype, hfind⟩ := hfound hapart _ hx
    obtain ⟨type', htype', hfind'⟩ := hfound' hapart' _ hy
    obtain ⟨other, hother, hsame⟩ := hdescribes full x y type hx hy htype
    obtain rfl := Except.ok.inj (hother.symm.trans htype')
    rw [hfind, hfind']
    exact .some hsame
  · have hname' : name ∉ table'.names := by
      rw [hnames']
      rintro ⟨full, hfull, rfl⟩
      exact hname ((hnames _).2 ⟨full, (hkeys full).2 hfull, rfl⟩)
    rw [find?, find?, Entries.lookup_eq_none_iff.2 hname, Entries.lookup_eq_none_iff.2 hname']
    exact .none

end Table

end AvroBindings
