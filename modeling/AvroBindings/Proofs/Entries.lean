import Mathlib.Data.List.Forall2
import AvroBindings.Entries

/-!
# Entries without repeated keys

Look-ups, insertions and removals in entries in which no key is repeated: a look-up finds every
entry, entries inserted one after another stay as they are, and taking one out leaves the
others.

## Main Definitions

* `Entries.Related` — two maps have the same keys and related values under them.

## Main Statements

* `Entries.lookup_eq_some_iff_mem` — an entry is found exactly if it is there.
* `Entries.ofPairs_of_nodup` — pairs without a repeated key are their own entries.
* `Entries.lookup_ofPairs`, `Entries.mem_ofPairs_iff` — of a repeated key the last value is
  found.
* `Entries.keys_ofPairs` — the keys stand in the order in which they first occur.
* `Entries.foldl_insert_ofPairs` — pairs that were put in can be put in again.
* `Entries.related_ofPairs` — what is related pair by pair is related as maps.
* `Entries.ofPairs_map`, `Entries.lookup_map` — what is made of the values or of the keys of
  entries.
* `Entries.swapErase_perm` — the order aside, an entry is just taken out.
* `exists_left_of_forall₂`, `exists_right_of_forall₂`, `exists_append_of_forall₂` — items of
  related lists have partners.
* `rel_cases`, `exists_of_rel` — two related look-ups find something, or neither does.
-/

namespace AvroBindings

/-! ## Related lists -/

/-- Every item of the second of two related lists has a partner in the first. -/
theorem exists_left_of_forall₂ {α β : Type} {R : α → β → Prop} {l₁ : List α} {l₂ : List β}
    {b : β} (h : List.Forall₂ R l₁ l₂) (hb : b ∈ l₂) : ∃ a ∈ l₁, R a b := by
  induction h with
  | nil => simp at hb
  | cons hab _ ih =>
      rcases List.mem_cons.1 hb with rfl | hb
      · exact ⟨_, List.mem_cons_self, hab⟩
      · obtain ⟨a, ha, hr⟩ := ih hb
        exact ⟨a, List.mem_cons_of_mem _ ha, hr⟩

/-- Every item of the first of two related lists has a partner in the second. -/
theorem exists_right_of_forall₂ {α β : Type} {R : α → β → Prop} {l₁ : List α} {l₂ : List β}
    {a : α} (h : List.Forall₂ R l₁ l₂) (ha : a ∈ l₁) : ∃ b ∈ l₂, R a b := by
  have hflip : List.Forall₂ (flip R) l₂ l₁ := h.flip
  exact exists_left_of_forall₂ hflip ha

/-- Where the first of two related lists is cut at an item, the second can be cut at a
partner. -/
theorem exists_append_of_forall₂ {α β : Type} {R : α → β → Prop} {before after : List α} {a : α}
    {l : List β} (h : List.Forall₂ R (before ++ a :: after) l) :
    ∃ before' b after', l = before' ++ b :: after' ∧ R a b ∧ List.Forall₂ R after after' := by
  induction before generalizing l with
  | nil =>
      obtain ⟨b, after', hab, hafter, rfl⟩ := List.forall₂_cons_left_iff.1 h
      exact ⟨[], b, after', rfl, hab, hafter⟩
  | cons first rest ih =>
      obtain ⟨first', l', -, hrest, rfl⟩ := List.forall₂_cons_left_iff.1 h
      obtain ⟨before', b, after', rfl, hab, hafter⟩ := ih hrest
      exact ⟨first' :: before', b, after', rfl, hab, hafter⟩

/-- A list has a related one exactly if each of its items has a partner. -/
theorem exists_forall₂_iff {α β : Type} {R : α → β → Prop} {xs : List α} :
    (∃ ys, List.Forall₂ R xs ys) ↔ ∀ x ∈ xs, ∃ y, R x y := by
  induction xs with
  | nil => simp
  | cons x rest ih =>
      rw [List.forall_mem_cons, ← ih]
      constructor
      · rintro ⟨_, h⟩
        obtain ⟨y, ys, hy, hys, rfl⟩ := List.forall₂_cons_left_iff.1 h
        exact ⟨⟨y, hy⟩, ys, hys⟩
      · rintro ⟨⟨y, hy⟩, ys, hys⟩
        exact ⟨y :: ys, .cons hy hys⟩

/-- Relatedness of lists is transitive where relatedness of their items is. -/
theorem forall₂_trans {α : Type} {R : α → α → Prop} {xs ys zs : List α}
    (trans : ∀ x ∈ xs, ∀ y ∈ ys, ∀ z ∈ zs, R x y → R y z → R x z) (hxy : List.Forall₂ R xs ys)
    (hyz : List.Forall₂ R ys zs) : List.Forall₂ R xs zs := by
  induction hxy generalizing zs with
  | nil =>
      cases hyz
      exact .nil
  | @cons x y xs ys hxy _ ih =>
      cases hyz with
      | @cons _ z _ zs hyz hrest =>
          refine .cons (trans x (by simp) y (by simp) z (by simp) hxy hyz)
            (ih (fun a ha b hb c hc => ?_) hrest)
          exact trans a (List.mem_cons_of_mem _ ha) b (List.mem_cons_of_mem _ hb) c
            (List.mem_cons_of_mem _ hc)

/-- An item of a list that is related to another can be replaced by what is related to all that
the item is. -/
theorem forall₂_replace {α β : Type} {R : α → β → Prop} {before after : List α} {a a' : α}
    {l : List β} (h : List.Forall₂ R (before ++ a :: after) l) (replace : ∀ b, R a b → R a' b) :
    List.Forall₂ R (before ++ a' :: after) l := by
  induction before generalizing l with
  | nil =>
      obtain ⟨b, rest, hab, hrest, rfl⟩ := List.forall₂_cons_left_iff.1 h
      exact .cons (replace b hab) hrest
  | cons first before ih =>
      obtain ⟨b, rest, hfirst, hrest, rfl⟩ := List.forall₂_cons_left_iff.1 h
      exact .cons hfirst (ih hrest)

/-- An item and its partner in the image of the list. -/
theorem mem_zip_map {α β : Type} {f : α → β} {items : List α} {x : α} {y : β}
    (h : (x, y) ∈ items.zip (items.map f)) :
    x ∈ items ∧ y = f x := by
  have hself : List.Forall₂ (fun x y => x ∈ items ∧ y = f x) items (items.map f) :=
    List.forall₂_map_right_iff.2 (List.forall₂_same.2 fun x hx => ⟨hx, rfl⟩)
  exact List.forall₂_zip hself h

/-- Lists with related items in one place are related if the others are related to
themselves. -/
theorem forall₂_middle {α : Type} {R : α → α → Prop} {before after : List α} {a b : α}
    (hbefore : ∀ x ∈ before, R x x) (hafter : ∀ x ∈ after, R x x) (h : R a b) :
    List.Forall₂ R (before ++ a :: after) (before ++ b :: after) :=
  List.rel_append (List.forall₂_same.2 hbefore) (.cons h (List.forall₂_same.2 hafter))

/-- Two lists that are related to one have partners where any two items that are related to one
have. -/
theorem exists_forall₂_of_forall₂ {α β γ δ : Type} {R : α → β → Prop} {S : α → γ → Prop}
    {T : β → δ → Prop} {Q : γ → δ → Prop} {xs : List α} {ys : List β} {zs : List γ}
    (partner : ∀ x ∈ xs, ∀ y ∈ ys, ∀ z, R x y → S x z → ∃ w, T y w ∧ Q z w)
    (hxy : List.Forall₂ R xs ys) (hxz : List.Forall₂ S xs zs) :
    ∃ ws, List.Forall₂ T ys ws ∧ List.Forall₂ Q zs ws := by
  induction hxy generalizing zs with
  | nil =>
      cases hxz
      exact ⟨[], .nil, .nil⟩
  | @cons x y xs ys hxy _ ih =>
      cases hxz with
      | @cons _ z _ zs hxz hrest =>
          obtain ⟨w, hyw, hzw⟩ := partner x List.mem_cons_self y List.mem_cons_self z hxy hxz
          obtain ⟨ws, hys, hzs⟩ :=
            ih (fun x hx y hy =>
              partner x (List.mem_cons_of_mem _ hx) y (List.mem_cons_of_mem _ hy)) hrest
          exact ⟨w :: ws, .cons hyw hys, .cons hzw hzs⟩

/-- Of two lists that are related to one, the first is related to the second if items that are
related to one are. -/
theorem forall₂_of_forall₂ {α β γ : Type} {R : α → β → Prop} {S : α → γ → Prop}
    {T : β → γ → Prop} {xs : List α} {ys : List β} {zs : List γ}
    (step : ∀ x ∈ xs, ∀ y ∈ ys, ∀ z, R x y → S x z → T y z) (hxy : List.Forall₂ R xs ys)
    (hxz : List.Forall₂ S xs zs) : List.Forall₂ T ys zs := by
  have partner : ∀ x ∈ xs, ∀ y ∈ ys, ∀ z, R x y → S x z → ∃ w, T y w ∧ z = w :=
    fun x hx y hy z hxy hxz => ⟨z, step x hx y hy z hxy hxz, rfl⟩
  obtain ⟨ws, hws, heq⟩ := exists_forall₂_of_forall₂ partner hxy hxz
  rw [List.forall₂_eq_eq_eq] at heq
  exact heq ▸ hws

/-! ## Related look-ups -/

section Rel

universe u

variable {α β : Type u} {R : α → β → Prop} {x : Option α} {y : Option β}

/-- Two related look-ups find something, or neither does. -/
theorem rel_cases (h : Option.Rel R x y) :
    x = none ∧ y = none ∨ ∃ a b, x = some a ∧ y = some b ∧ R a b := by
  cases h with
  | some hab => exact .inr ⟨_, _, rfl, rfl, hab⟩
  | none => exact .inl ⟨rfl, rfl⟩

/-- What one of two related look-ups finds is related to what the other finds. -/
theorem exists_of_rel (h : Option.Rel R x y) {a : α} (ha : x = some a) :
    ∃ b, y = some b ∧ R a b := by
  subst ha
  cases h with
  | some hab => exact ⟨_, rfl, hab⟩

theorem rel_symm {S : β → α → Prop} (symm : ∀ a b, R a b → S b a) (h : Option.Rel R x y) :
    Option.Rel S y x := by
  cases h with
  | some hab => exact .some (symm _ _ hab)
  | none => exact .none

end Rel

namespace Entries

universe u

variable {α : Type u}

theorem mem_keys {key : String} {entries : Entries α} :
    key ∈ keys entries ↔ ∃ value, (key, value) ∈ entries := by
  simp [keys]

/-- A look-up finds an entry that is there. -/
theorem mem_of_lookup {key : String} {value : α} {entries : Entries α}
    (h : entries.lookup key = some value) :
    (key, value) ∈ entries := by
  obtain ⟨before, after, rfl, -⟩ := List.lookup_eq_some_iff.1 h
  simp

/-- A key is found exactly if it is there. -/
theorem lookup_isSome_iff {key : String} {entries : Entries α} :
    (entries.lookup key).isSome = true ↔ key ∈ keys entries := by
  rw [List.lookup_isSome_iff, keys, List.mem_map]
  exact exists_congr fun _ => and_congr_right fun _ => beq_iff_eq.trans eq_comm

theorem mem_keys_of_lookup {key : String} {value : α} {entries : Entries α}
    (h : entries.lookup key = some value) :
    key ∈ keys entries :=
  mem_keys.2 ⟨value, mem_of_lookup h⟩

theorem exists_lookup {key : String} {entries : Entries α} (h : key ∈ keys entries) :
    ∃ value, entries.lookup key = some value :=
  Option.isSome_iff_exists.1 (lookup_isSome_iff.2 h)

theorem lookup_eq_none_iff {key : String} {entries : Entries α} :
    entries.lookup key = none ↔ key ∉ keys entries := by
  rw [← lookup_isSome_iff, Bool.not_eq_true, Option.isSome_eq_false_iff,
    Option.isNone_iff_eq_none]

/-- Without a repeated key an entry is found exactly if it is there. -/
theorem lookup_eq_some_iff_mem {key : String} {value : α} {entries : Entries α}
    (hnodup : (keys entries).Nodup) :
    entries.lookup key = some value ↔ (key, value) ∈ entries := by
  refine ⟨mem_of_lookup, fun hmem => ?_⟩
  induction entries with
  | nil => simp at hmem
  | cons entry rest ih =>
      obtain ⟨k, v⟩ := entry
      rw [keys_cons, List.nodup_cons] at hnodup
      rcases List.mem_cons.1 hmem with heq | hrest
      · obtain ⟨rfl, rfl⟩ := Prod.mk.inj heq
        simp
      · have hne : key ≠ k := by
          rintro rfl
          exact hnodup.1 (mem_keys.2 ⟨value, hrest⟩)
        rw [List.lookup_cons, beq_eq_false_iff_ne.2 hne]
        exact ih hnodup.2 hrest

/-- Entries have the same keys exactly if they have them one by one. -/
theorem keys_eq_iff {β : Type u} {entries : Entries α} {others : Entries β} :
    keys entries = keys others ↔
      List.Forall₂ (fun entry other => entry.1 = other.1) entries others := by
  have hequal : List.Forall₂ (· = ·) (keys entries) (keys others) ↔
      keys entries = keys others := by
    rw [List.forall₂_eq_eq_eq]
  rw [← hequal, keys, keys, List.forall₂_map_left_iff, List.forall₂_map_right_iff]

/-- Entries with the same keys in the same order and the same values under them are the same. -/
theorem eq_of_lookup_eq {entries others : Entries α} (hkeys : keys entries = keys others)
    (hnodup : (keys others).Nodup) (h : ∀ key, entries.lookup key = others.lookup key) :
    entries = others := by
  have hforall := keys_eq_iff.1 hkeys
  rw [← List.forall₂_eq_eq_eq]
  refine List.forall₂_iff_zip.2 ⟨hforall.length_eq, fun {entry other} hpair => ?_⟩
  obtain ⟨hentry, hother⟩ := List.of_mem_zip hpair
  have hkey : entry.1 = other.1 := List.forall₂_zip hforall hpair
  have hvalue := (lookup_eq_some_iff_mem (hkeys ▸ hnodup)).2 hentry
  have hvalue' := (lookup_eq_some_iff_mem hnodup).2 hother
  rw [h, hkey, hvalue'] at hvalue
  exact Prod.ext hkey (Option.some.inj hvalue).symm

/-! ## Insertion -/

/-- A value that is there can be put in again. -/
theorem insert_of_lookup {key : String} {value : α} {entries : Entries α}
    (h : entries.lookup key = some value) :
    insert key value entries = entries := by
  induction entries with
  | nil => simp at h
  | cons entry rest ih =>
      obtain ⟨k, v⟩ := entry
      by_cases hk : k = key
      · subst hk
        obtain rfl : v = value := by simpa using h
        rw [insert, if_pos rfl]
      · rw [List.lookup_cons, beq_eq_false_iff_ne.2 (Ne.symm hk)] at h
        rw [insert, if_neg hk, ih h]

/-- A new key goes to the end. -/
theorem insert_of_notMem {key : String} {value : α} {entries : Entries α}
    (h : key ∉ keys entries) :
    insert key value entries = entries ++ [(key, value)] := by
  induction entries with
  | nil => rfl
  | cons entry rest ih =>
      obtain ⟨k, v⟩ := entry
      rw [keys_cons, List.mem_cons, not_or] at h
      rw [insert, if_neg (Ne.symm h.1), ih h.2, List.cons_append]

/-- What is there after an insertion was inserted or was there before. -/
theorem mem_of_mem_insert {key : String} {value : α} {entries : Entries α} {entry : String × α}
    (h : entry ∈ insert key value entries) : entry = (key, value) ∨ entry ∈ entries := by
  induction entries with
  | nil => exact .inl (by simpa [insert] using h)
  | cons other rest ih =>
      obtain ⟨k, v⟩ := other
      by_cases hk : k = key
      · subst hk
        rw [insert, if_pos rfl] at h
        rcases List.mem_cons.1 h with heq | hmem
        · exact .inl heq
        · exact .inr (List.mem_cons_of_mem _ hmem)
      · rw [insert, if_neg hk] at h
        rcases List.mem_cons.1 h with rfl | hmem
        · exact .inr List.mem_cons_self
        · exact (ih hmem).imp_right (List.mem_cons_of_mem _)

theorem lookup_insert_self (key : String) (value : α) (entries : Entries α) :
    (insert key value entries).lookup key = some value := by
  rw [lookup_insert, if_pos rfl]

theorem mem_insert_self (key : String) (value : α) (entries : Entries α) :
    (key, value) ∈ insert key value entries :=
  mem_of_lookup (lookup_insert_self key value entries)

/-- An entry of another key stays. -/
theorem mem_insert_of_ne {key : String} {value : α} {entries : Entries α} {entry : String × α}
    (hne : entry.1 ≠ key) (h : entry ∈ entries) : entry ∈ insert key value entries := by
  induction entries with
  | nil => simp at h
  | cons other rest ih =>
      obtain ⟨k, v⟩ := other
      by_cases hk : k = key
      · rw [insert, if_pos hk]
        rcases List.mem_cons.1 h with rfl | hmem
        · exact absurd hk hne
        · exact List.mem_cons_of_mem _ hmem
      · rw [insert, if_neg hk]
        rcases List.mem_cons.1 h with rfl | hmem
        · exact List.mem_cons_self
        · exact List.mem_cons_of_mem _ (ih hmem)

/-- An entry that is there gets its new value in its place. -/
theorem insert_append {key : String} {value old : α} {before after : Entries α}
    (h : key ∉ keys before) :
    insert key value (before ++ (key, old) :: after) = before ++ (key, value) :: after := by
  induction before with
  | nil => rw [List.nil_append, insert, if_pos rfl, List.nil_append]
  | cons entry rest ih =>
      obtain ⟨k, v⟩ := entry
      rw [keys_cons, List.mem_cons, not_or] at h
      rw [List.cons_append, insert, if_neg (Ne.symm h.1), ih h.2, List.cons_append]

/-- Entries that are related one by one stay so with related values under one key. -/
theorem forall₂_insert {β : Type u} {R : α → β → Prop} {entries : Entries α}
    {others : Entries β} {value : α} {other : β}
    (h : List.Forall₂ (fun entry other => entry.1 = other.1 ∧ R entry.2 other.2) entries others)
    (key : String) (hvalue : R value other) :
    List.Forall₂ (fun entry other => entry.1 = other.1 ∧ R entry.2 other.2)
      (insert key value entries)
      (insert key other others) := by
  induction h with
  | nil => exact .cons ⟨rfl, hvalue⟩ .nil
  | @cons entry entry' _ _ hentry hrest ih =>
      obtain ⟨k, v⟩ := entry
      obtain ⟨k', w⟩ := entry'
      obtain ⟨rfl, hR⟩ := hentry
      rw [insert, insert]
      split
      · exact .cons ⟨rfl, hvalue⟩ hrest
      · exact .cons ⟨rfl, hR⟩ ih

/-- Pairs whose keys are all new go to the end one after another. -/
theorem foldl_insert_of_nodup {entries pairs : Entries α}
    (h : (keys entries ++ keys pairs).Nodup) :
    pairs.foldl (fun entries pair => insert pair.1 pair.2 entries) entries =
      entries ++ pairs := by
  induction pairs generalizing entries with
  | nil => simp
  | cons pair rest ih =>
      obtain ⟨k, v⟩ := pair
      have hnew : k ∉ keys entries := by
        intro hmem
        exact (List.nodup_append.1 h).2.2 k hmem k (by simp) rfl
      rw [List.foldl_cons, insert_of_notMem hnew, ih, List.append_assoc, List.singleton_append]
      simpa [keys] using h

/-- **Pairs without a repeated key are their own entries.** -/
theorem ofPairs_of_nodup {pairs : Entries α} (h : (keys pairs).Nodup) :
    ofPairs pairs = pairs := by
  have hkeys : (keys ([] : Entries α) ++ keys pairs).Nodup := by simpa using h
  rw [ofPairs, foldl_insert_of_nodup hkeys, List.nil_append]

/-- After pairs were put in, a key finds the last of them that has it, or else what it found
before. -/
theorem lookup_foldl_insert (key : String) (pairs : List (String × α)) (entries : Entries α) :
    (pairs.foldl (fun entries pair => insert pair.1 pair.2 entries) entries).lookup key =
      (pairs.reverse.lookup key).or (entries.lookup key) := by
  induction pairs generalizing entries with
  | nil => simp
  | cons pair rest ih =>
      obtain ⟨k, v⟩ := pair
      rw [List.foldl_cons, ih, lookup_insert, List.reverse_cons, List.lookup_append,
        Option.or_assoc, List.lookup_cons, List.lookup_nil]
      by_cases hk : key = k
      · simp [hk]
      · rw [if_neg hk, beq_eq_false_iff_ne.2 hk, Option.none_or]

/-- **Of pairs put in one after another the last one of a key counts.** -/
theorem lookup_ofPairs (key : String) (pairs : List (String × α)) :
    (ofPairs pairs).lookup key = pairs.reverse.lookup key := by
  rw [ofPairs, lookup_foldl_insert, List.lookup_nil, Option.or_none]

theorem mem_keys_ofPairs {key : String} {pairs : List (String × α)} :
    key ∈ keys (ofPairs pairs) ↔ key ∈ keys pairs := by
  rw [← lookup_isSome_iff, lookup_ofPairs, lookup_isSome_iff, keys, List.map_reverse,
    List.mem_reverse, keys]

/-- Pairs put in one after another repeat no key. -/
theorem keys_nodup_ofPairs (pairs : List (String × α)) : (keys (ofPairs pairs)).Nodup := by
  suffices h : ∀ entries : Entries α, (keys entries).Nodup →
      (keys (pairs.foldl (fun entries pair => insert pair.1 pair.2 entries) entries)).Nodup by
    exact h [] .nil
  induction pairs with
  | nil => exact fun entries hnodup => hnodup
  | cons pair rest ih => exact fun entries hnodup => ih _ (keys_nodup_insert hnodup)

/-- **What is there after pairs were put in** is the last pair of each key. -/
theorem mem_ofPairs_iff {entry : String × α} {pairs : List (String × α)} :
    entry ∈ ofPairs pairs ↔ ∃ before after, pairs = before ++ entry :: after ∧
    entry.1 ∉ keys after := by
  obtain ⟨key, value⟩ := entry
  rw [← lookup_eq_some_iff_mem (keys_nodup_ofPairs pairs), lookup_ofPairs,
    List.lookup_eq_some_iff]
  constructor
  · rintro ⟨later, earlier, hsplit, hlater⟩
    refine ⟨earlier.reverse, later.reverse, ?_, ?_⟩
    · rw [← List.reverse_reverse pairs, hsplit, List.reverse_append, List.reverse_cons,
        List.append_assoc, List.singleton_append]
    · intro hkey
      obtain ⟨pair, hpair, rfl⟩ := List.mem_map.1 hkey
      have hne := hlater pair (List.mem_reverse.1 hpair)
      simp at hne
  · rintro ⟨before, after, rfl, hkey⟩
    refine ⟨after.reverse, before.reverse, by simp, ?_⟩
    intro pair hpair
    rw [bne_iff_ne]
    intro heq
    exact hkey (List.mem_map.2 ⟨pair, List.mem_reverse.1 hpair, heq.symm⟩)

/-- Of items put in under their keys the last one of each key is there. -/
theorem mem_ofPairs_map_iff {ι : Type} {k : ι → String} {v : ι → α} {items : List ι}
    {entry : String × α} :
    entry ∈ ofPairs (items.map fun item => (k item, v item)) ↔
      ∃ before item after, items = before ++ item :: after ∧ entry = (k item, v item) ∧
        ∀ other ∈ after, k other ≠ k item := by
  rw [mem_ofPairs_iff]
  constructor
  · rintro ⟨before, after, hsplit, hlater⟩
    obtain ⟨before', rest, rfl, -, hrest⟩ := List.map_eq_append_iff.1 hsplit
    obtain ⟨item, after', rfl, rfl, rfl⟩ := List.map_eq_cons_iff.1 hrest
    refine ⟨before', item, after', rfl, rfl, ?_⟩
    intro other hother heq
    exact hlater (List.mem_map.2 ⟨_, List.mem_map_of_mem hother, heq⟩)
  · rintro ⟨before, item, after, rfl, rfl, hlater⟩
    refine ⟨_, _, by rw [List.map_append, List.map_cons], ?_⟩
    intro hkey
    rw [keys, List.map_map] at hkey
    obtain ⟨other, hother, heq⟩ := List.mem_map.1 hkey
    exact hlater other hother heq

/-- Only what was put in is there. -/
theorem mem_of_mem_ofPairs {entry : String × α} {pairs : List (String × α)}
    (h : entry ∈ ofPairs pairs) :
    entry ∈ pairs := by
  obtain ⟨before, after, rfl, -⟩ := mem_ofPairs_iff.1 h
  exact List.mem_append_right _ List.mem_cons_self

/-- After pairs were put in, their new keys stand at the end, in the order in which they first
occur. -/
theorem keys_foldl_insert (pairs : List (String × α)) (entries : Entries α) :
    keys (pairs.foldl (fun entries pair => insert pair.1 pair.2 entries) entries) =
      keys entries ++ ((keys pairs).filter (· ∉ keys entries)).eraseDups := by
  induction pairs generalizing entries with
  | nil => simp
  | cons pair rest ih =>
      obtain ⟨k, v⟩ := pair
      rw [List.foldl_cons, ih, keys_insert, keys_cons]
      split
      next hk => rw [List.filter_cons_of_neg (by simpa using hk)]
      next hk =>
        rw [List.filter_cons_of_pos (by simpa using hk), List.eraseDups_cons,
          List.filter_filter, List.append_assoc, List.singleton_append]
        refine congrArg (fun more => keys entries ++ k :: List.eraseDups more)
          (List.filter_congr fun other _ => ?_)
        simp [not_or, and_comm, beq_eq_decide]

/-- The keys of pairs put in one after another stand in the order in which they first occur. -/
theorem keys_ofPairs (pairs : List (String × α)) :
    keys (ofPairs pairs) = (keys pairs).eraseDups := by
  rw [ofPairs, keys_foldl_insert, keys_nil, List.nil_append, List.filter_eq_self.2 (by simp)]

/-- **Pairs that were put in once can be put in again**: nothing changes. -/
theorem foldl_insert_ofPairs (pairs : List (String × α)) :
    pairs.foldl (fun entries pair => insert pair.1 pair.2 entries) (ofPairs pairs) =
      ofPairs pairs := by
  have hkeys :
      keys (pairs.foldl (fun entries pair => insert pair.1 pair.2 entries) (ofPairs pairs)) =
      keys (ofPairs pairs) := by
    have hold : (keys pairs).filter (· ∉ keys (ofPairs pairs)) = [] := by
      rw [List.filter_eq_nil_iff]
      exact fun key hkey => by simpa using mem_keys_ofPairs.2 hkey
    rw [keys_foldl_insert, hold, List.eraseDups_nil, List.append_nil]
  refine eq_of_lookup_eq hkeys (keys_nodup_ofPairs pairs) fun key => ?_
  rw [lookup_foldl_insert, lookup_ofPairs, Option.or_self]

/-! ## Related entries -/

/-- The order of entries without a repeated key does not show in look-ups. -/
theorem lookup_eq_of_perm {entries others : Entries α} (hnodup : (keys entries).Nodup)
    (order : entries.Perm others) (key : String) : entries.lookup key = others.lookup key := by
  have hnodup' : (keys others).Nodup := (order.map Prod.fst).nodup_iff.1 hnodup
  refine Option.ext fun value => ?_
  rw [lookup_eq_some_iff_mem hnodup, lookup_eq_some_iff_mem hnodup', order.mem_iff]

/-- **Entries are related as maps**: both repeat no key, have the same keys, and have related
values under them. -/
structure Related {β : Type u} (R : α → β → Prop) (entries : Entries α) (others : Entries β) :
    Prop where
  nodup : (keys entries).Nodup
  nodup' : (keys others).Nodup
  lookup : ∀ key, Option.Rel R (entries.lookup key) (others.lookup key)

section Related

variable {β : Type u} {R : α → β → Prop}

/-- Look-ups in entries that are related one by one are related. -/
theorem lookup_rel {pairs : List (String × α)} {others : List (String × β)}
    (h : List.Forall₂ (fun pair other => pair.1 = other.1 ∧ R pair.2 other.2) pairs others)
    (key : String) :
    Option.Rel R (pairs.lookup key) (others.lookup key) := by
  induction h with
  | nil => exact .none
  | @cons pair other _ _ hpair _ ih =>
      obtain ⟨k, v⟩ := pair
      obtain ⟨k', w⟩ := other
      obtain ⟨rfl, hR⟩ := hpair
      by_cases hk : key = k
      · subst hk
        simpa using hR
      · rw [List.lookup_cons, List.lookup_cons, beq_eq_false_iff_ne.2 hk]
        exact ih

/-- Entries that are related one by one are related as maps, if no key is repeated. -/
theorem related_of_forall₂ {entries : Entries α} {others : Entries β}
    (hnodup : (keys entries).Nodup)
    (h : List.Forall₂ (fun entry other => entry.1 = other.1 ∧ R entry.2 other.2) entries
      others) :
    Related R entries others := by
  have hkeys : keys entries = keys others := keys_eq_iff.2 (h.imp fun _ _ => And.left)
  exact ⟨hnodup, hkeys ▸ hnodup, lookup_rel h⟩

/-- Pairs that are related one by one become related entries. -/
theorem related_ofPairs {pairs : List (String × α)} {others : List (String × β)}
    (h : List.Forall₂ (fun pair other => pair.1 = other.1 ∧ R pair.2 other.2) pairs others) :
    Related R (ofPairs pairs) (ofPairs others) := by
  refine ⟨keys_nodup_ofPairs pairs, keys_nodup_ofPairs others, fun key => ?_⟩
  rw [lookup_ofPairs, lookup_ofPairs]
  exact lookup_rel (List.forall₂_reverse_iff.2 h) key

namespace Related

variable {entries : Entries α} {others : Entries β} (h : Related R entries others)

include h

/-- A key is found on both sides, with related values, or on neither. -/
theorem lookup_cases (key : String) :
    entries.lookup key = none ∧ others.lookup key = none ∨
      ∃ value other, entries.lookup key = some value ∧ others.lookup key = some other ∧
      R value other :=
  rel_cases (h.lookup key)

theorem mono {S : α → β → Prop} (weaker : ∀ value other, R value other → S value other) :
    Related S entries others := by
  refine ⟨h.nodup, h.nodup', fun key => ?_⟩
  rcases h.lookup_cases key with ⟨hnone, hnone'⟩ | ⟨value, other, hvalue, hother, hR⟩
  · rw [hnone, hnone']
    exact .none
  · rw [hvalue, hother]
    exact .some (weaker value other hR)

theorem exists_right {key : String} {value : α} (hvalue : entries.lookup key = some value) :
    ∃ other, others.lookup key = some other ∧ R value other :=
  exists_of_rel (h.lookup key) hvalue

theorem exists_left {key : String} {other : β} (hother : others.lookup key = some other) :
    ∃ value, entries.lookup key = some value ∧ R value other := by
  have hflip : Option.Rel (flip R) (others.lookup key) (entries.lookup key) :=
    rel_symm (fun _ _ => id) (h.lookup key)
  exact exists_of_rel hflip hother

theorem lookup_eq_none_iff (key : String) :
    entries.lookup key = none ↔ others.lookup key = none := by
  rcases h.lookup_cases key with ⟨hnone, hnone'⟩ | ⟨value, other, hvalue, hother, -⟩
  · simp [hnone, hnone']
  · simp [hvalue, hother]

theorem mem_keys_iff (key : String) : key ∈ keys entries ↔ key ∈ keys others := by
  rw [← not_iff_not, ← Entries.lookup_eq_none_iff, ← Entries.lookup_eq_none_iff]
  exact h.lookup_eq_none_iff key

theorem length_eq : entries.length = others.length := by
  have hperm : (keys entries).Perm (keys others) :=
    (List.perm_ext_iff_of_nodup h.nodup h.nodup').2 h.mem_keys_iff
  simpa [keys] using hperm.length_eq

/-- What is read from related entries value by value is related, if what is read from related
values is. -/
theorem read {γ δ : Type u} {S : α → γ → Prop} {T : β → δ → Prop} {Q : γ → δ → Prop}
    {left : Entries γ} {right : Entries δ} (hleft : Related S entries left)
    (hright : Related T others right) (step : ∀ x y v w, R x y → S x v → T y w → Q v w) :
    Related Q left right := by
  refine ⟨hleft.nodup', hright.nodup', fun key => ?_⟩
  rcases h.lookup_cases key with ⟨hx, hy⟩ | ⟨x, y, hx, hy, hxy⟩
  · rw [(hleft.lookup_eq_none_iff key).1 hx, (hright.lookup_eq_none_iff key).1 hy]
    exact .none
  · obtain ⟨v, hv, hxv⟩ := hleft.exists_right hx
    obtain ⟨w, hw, hyw⟩ := hright.exists_right hy
    rw [hv, hw]
    exact .some (step x y v w hxy hxv hyw)

end Related

end Related

/-! ## Other values -/

section Mapping

variable {β : Type} (g : α → β)

theorem insert_map (key : String) (value : α) (entries : Entries α) :
    insert key (g value) (entries.map fun entry => (entry.1, g entry.2)) =
      (insert key value entries).map fun entry => (entry.1, g entry.2) := by
  induction entries with
  | nil => rfl
  | cons entry rest ih =>
      obtain ⟨k, v⟩ := entry
      rw [List.map_cons, insert, insert, ih]
      split <;> rfl

/-- What is made of the values of pairs is made of those that remain. -/
theorem ofPairs_map (pairs : List (String × α)) :
    ofPairs (pairs.map fun pair => (pair.1, g pair.2)) =
      (ofPairs pairs).map fun entry => (entry.1, g entry.2) := by
  suffices h : ∀ entries : Entries α,
      (pairs.map fun pair => (pair.1, g pair.2)).foldl
          (fun entries pair => insert pair.1 pair.2 entries)
          (entries.map fun entry => (entry.1, g entry.2)) =
        (pairs.foldl (fun entries pair => insert pair.1 pair.2 entries) entries).map
          fun entry => (entry.1, g entry.2) by
    exact h []
  induction pairs with
  | nil => exact fun entries => rfl
  | cons pair rest ih =>
      intro entries
      rw [List.map_cons, List.foldl_cons, List.foldl_cons, ← ih, ← insert_map]

/-- Under another name a key finds what it found if no other key gets that name. -/
theorem lookup_map {f : String → String} {key : String} {entries : Entries α}
    (h : ∀ other ∈ keys entries, f other = f key → other = key) :
    (entries.map fun entry => (f entry.1, g entry.2)).lookup (f key) =
      (entries.lookup key).map g := by
  induction entries with
  | nil => rfl
  | cons entry rest ih =>
      obtain ⟨k, v⟩ := entry
      rw [keys_cons, List.forall_mem_cons] at h
      rw [List.map_cons, List.lookup_cons, List.lookup_cons]
      by_cases hk : key = k
      · subst hk
        simp
      · rw [beq_eq_false_iff_ne.2 fun heq => hk (h.1 heq.symm).symm, beq_eq_false_iff_ne.2 hk]
        exact ih h.2

end Mapping

/-! ## Taking out -/

/-- Apart from the order, an entry is just taken out. -/
theorem swapErase_perm (key : String) (entries : Entries α) :
    (swapErase key entries).Perm (entries.eraseP fun entry => entry.1 == key) := by
  induction entries with
  | nil => exact .refl _
  | cons entry rest ih =>
      obtain ⟨k, v⟩ := entry
      by_cases hk : k = key
      · rw [swapErase, if_pos hk, List.eraseP_cons_of_pos (by simp [hk])]
        cases hlast : rest.getLast? with
        | none =>
            rw [List.getLast?_eq_none_iff.1 hlast]
        | some last =>
            obtain ⟨front, rfl⟩ := List.getLast?_eq_some_iff.1 hlast
            rw [List.dropLast_concat]
            exact List.perm_append_singleton last front |>.symm
      · rw [swapErase, if_neg hk, List.eraseP_cons_of_neg (by simp [hk])]
        exact ih.cons _

/-- A key that is not there cannot be taken out. -/
theorem swapErase_of_notMem {key : String} {entries : Entries α} (h : key ∉ keys entries) :
    swapErase key entries = entries := by
  induction entries with
  | nil => rfl
  | cons entry rest ih =>
      obtain ⟨k, v⟩ := entry
      rw [keys_cons, List.mem_cons, not_or] at h
      rw [swapErase, if_neg (Ne.symm h.1), ih h.2]

/-- Which keys are left, and in which order, does not depend on the values. -/
theorem keys_swapErase_congr {β : Type u} (key : String) {entries : Entries α}
    {others : Entries β} (h : keys entries = keys others) :
    keys (swapErase key entries) = keys (swapErase key others) := by
  induction entries generalizing others with
  | nil =>
      obtain rfl : others = [] := by simpa [keys] using h.symm
      rfl
  | cons entry rest ih =>
      obtain ⟨k, v⟩ := entry
      cases others with
      | nil => simp at h
      | cons other rest' =>
          obtain ⟨k', v'⟩ := other
          obtain ⟨rfl, hrest⟩ : k = k' ∧ keys rest = keys rest' := by simpa using h
          by_cases hk : k = key
          · rw [swapErase, swapErase, if_pos hk, if_pos hk]
            have hlast : rest.getLast?.map Prod.fst = rest'.getLast?.map Prod.fst := by
              rw [← List.getLast?_map, ← List.getLast?_map]
              exact congrArg List.getLast? hrest
            have hfront : keys rest.dropLast = keys rest'.dropLast := by
              rw [keys, keys, List.map_dropLast, List.map_dropLast]
              exact congrArg List.dropLast hrest
            cases hentry : rest.getLast? with
            | none =>
                rw [hentry, Option.map_none, eq_comm, Option.map_eq_none_iff] at hlast
                rw [hlast]
                rfl
            | some last =>
                rw [hentry, Option.map_some, eq_comm, Option.map_eq_some_iff] at hlast
                obtain ⟨last', hlast', hkey⟩ := hlast
                rw [hlast', keys_cons, keys_cons, hfront, hkey]
          · rw [swapErase, swapErase, if_neg hk, if_neg hk, keys_cons, keys_cons, ih hrest]

theorem mem_of_mem_swapErase {key : String} {entries : Entries α} {entry : String × α}
    (h : entry ∈ swapErase key entries) : entry ∈ entries :=
  List.mem_of_mem_eraseP ((swapErase_perm key entries).mem_iff.1 h)

/-- Taking a key out repeats no key. -/
theorem keys_nodup_swapErase {key : String} {entries : Entries α} (h : (keys entries).Nodup) :
    (keys (swapErase key entries)).Nodup := by
  have hperm :
      (keys (swapErase key entries)).Perm (keys (entries.eraseP fun entry => entry.1 == key)) :=
    (swapErase_perm key entries).map Prod.fst
  refine hperm.nodup_iff.2 (h.sublist ?_)
  exact List.eraseP_sublist.map Prod.fst

/-- The entries of other keys stay. -/
theorem mem_swapErase_of_ne {key : String} {entries : Entries α} {entry : String × α}
    (hne : entry.1 ≠ key) (h : entry ∈ entries) : entry ∈ swapErase key entries := by
  rw [(swapErase_perm key entries).mem_iff, List.mem_eraseP_of_neg (by simp [hne])]
  exact h

/-- A key that was taken out is not found, if it was not repeated. -/
theorem lookup_swapErase_self {key : String} {entries : Entries α} (h : (keys entries).Nodup) :
    (swapErase key entries).lookup key = none := by
  induction entries with
  | nil => rfl
  | cons entry rest ih =>
      obtain ⟨k, v⟩ := entry
      rw [keys_cons, List.nodup_cons] at h
      by_cases hk : k = key
      · subst hk
        refine lookup_eq_none_iff.2 fun hmem => h.1 ?_
        have hperm := (swapErase_perm k ((k, v) :: rest)).map Prod.fst
        rw [List.eraseP_cons_of_pos (by simp)] at hperm
        exact hperm.mem_iff.1 hmem
      · rw [swapErase, if_neg hk, List.lookup_cons, beq_eq_false_iff_ne.2 (Ne.symm hk)]
        exact ih h.2

/-- Other keys are found as before. -/
theorem lookup_swapErase_of_ne {key other : String} {entries : Entries α} (hne : other ≠ key)
    (h : (keys entries).Nodup) :
    (swapErase key entries).lookup other = entries.lookup other := by
  refine Option.ext fun value => ?_
  rw [lookup_eq_some_iff_mem (keys_nodup_swapErase h), lookup_eq_some_iff_mem h]
  exact ⟨mem_of_mem_swapErase, mem_swapErase_of_ne hne⟩

end Entries

end AvroBindings
