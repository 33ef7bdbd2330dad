/-!
# Ordered entries

A finite map from strings that remembers the order of its entries, as a list of pairs.  Objects,
schema registries, descriptor tables and manifests are all kept this way, because the order of
their entries shows in what is printed.

## Main Definitions

* `Entries` — the entries in order.
* `Entries.insert` — an existing key keeps its place and gets the new value, a new key goes to
  the end.
* `Entries.swapErase` — the last entry moves into the place of the erased one.
* `Entries.ofPairs` — entries inserted one after another.

## Design Notes

A look-up is `List.lookup`, which finds the first entry of a key.  The functions here never
produce a second entry of a key; `keys_nodup_insert` states it for `insert`.
-/

namespace AvroBindings

universe u

/-- A map from strings to `α`, its entries in order. -/
abbrev Entries (α : Type u) := List (String × α)

namespace Entries

variable {α : Type u}

/-- The keys in order. -/
def keys (entries : Entries α) : List String := entries.map Prod.fst

/-- Sets the value of a key: in place if the key is there, else at the end. -/
def insert (key : String) (value : α) : Entries α → Entries α
  | [] => [(key, value)]
  | (k, v) :: rest => if k = key then (k, value) :: rest else (k, v) :: insert key value rest

/-- Takes a key out; the last entry moves into its place. -/
def swapErase (key : String) : Entries α → Entries α
  | [] => []
  | (k, v) :: rest =>
    if k = key then
      match rest.getLast? with
      | none => []
      | some last => last :: rest.dropLast
    else (k, v) :: swapErase key rest

/-- Inserts pairs one after another: of a repeated key the first place and the last value
remain. -/
def ofPairs (pairs : List (String × α)) : Entries α :=
  pairs.foldl (fun entries pair => entries.insert pair.1 pair.2) []

@[simp] theorem keys_nil : keys ([] : Entries α) = [] := rfl

@[simp] theorem keys_cons (k : String) (v : α) (rest : Entries α) :
    keys ((k, v) :: rest) = k :: keys rest := rfl

/-- Inserting sets the value of the key and of no other. -/
theorem lookup_insert (key other : String) (value : α) (entries : Entries α) :
    (insert key value entries).lookup other =
      if other = key then some value else entries.lookup other := by
  have differ {a b : String} (h : ¬a = b) : (a == b) = false := beq_eq_false_iff_ne.2 h
  induction entries with
  | nil => by_cases h : other = key <;> simp [insert, List.lookup_cons, h, differ]
  | cons entry rest ih =>
    obtain ⟨k, v⟩ := entry
    by_cases hk : k = key
    · subst hk; by_cases h : other = k <;> simp [insert, List.lookup_cons, h, differ]
    · by_cases h : other = k
      · subst h; simp [insert, hk]
      · simp [insert, hk, List.lookup_cons, differ h, ih]

/-- Inserting keeps the keys, or adds the new one at the end. -/
theorem keys_insert (key : String) (value : α) (entries : Entries α) :
    keys (insert key value entries) =
      if key ∈ keys entries then keys entries else keys entries ++ [key] := by
  induction entries with
  | nil => simp [insert]
  | cons entry rest ih =>
    obtain ⟨k, v⟩ := entry
    by_cases hk : k = key
    · simp [insert, hk]
    · have hk' : key ≠ k := fun h => hk h.symm
      by_cases hmem : key ∈ keys rest <;> simp [insert, hk, hk', ih, hmem]

/-- Inserting repeats no key. -/
theorem keys_nodup_insert {key : String} {value : α} {entries : Entries α}
    (h : (keys entries).Nodup) :
    (keys (insert key value entries)).Nodup := by
  rw [keys_insert]
  split
  · exact h
  · next hmem =>
      exact List.nodup_append.2 ⟨h, by simp, by simp; exact fun a ha hb => hmem (hb ▸ ha)⟩

example :
    swapErase "b" [("a", 1), ("b", 2), ("c", 3), ("d", 4)] =
      [("a", 1), ("d", 4), ("c", 3)] := by
  decide

end Entries

end AvroBindings
