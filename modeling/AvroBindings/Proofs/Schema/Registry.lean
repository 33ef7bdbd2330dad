import AvroBindings.Proofs.Schema.Members
import AvroBindings.Proofs.Schema.Qualify

/-!
# The registry over whole runs

What holds of a registry in which documents are qualified one after another, some of them in
vain: it has definitions under their full names, each after the definitions inside it, and it
only grows.

## Main Definitions

* `Registry.Sound` — the registry has only definitions, under their full names, each after those
  inside it.
* `Registry.Grows` — a registry has the entries of another, in their places, and more at the
  end.
* `Schema.registryAfter` — the registry after a run of qualifications that starts without
  definitions.

## Main Statements

* `Registry.Sound.enter` — what one definition does to the registry.
* `Schema.closed_definitions` — the definitions of a schema come after those inside them.
* `Schema.qualifyIn_sound` — what one qualification does, whatever comes of it.
* `Schema.registryAfter_sound` — what a run does.

## Design Notes

**Interrupted qualifications.**  A qualification that fails has entered the first few of the
definitions of its schema.  These are closed: what is inside one of them was entered before it.
So one argument serves both outcomes.

**Defined twice.**  The later spelling takes the place of the stored one.  It is an equal tree,
and equal trees have equal definitions inside, but the same entries stand before it.
-/

namespace AvroBindings

namespace Registry

/-! ## Sound registries -/

/-- A schema is fit to be kept under a name: this is a full name and its own, its kind carries a
name, and it states no namespace beside. -/
structure Definition (name : String) (schema : Json) : Prop where
  fullName : Name.isFull name = true
  named : schema.textMember? "name" = some name
  kind : Schema.IsDefinition schema
  «namespace» : schema.member? "namespace" = none

/-- Every definition inside a schema is among the entries: under its own name, as an equal
tree. -/
def Covers (entries : List (String × Json)) (schema : Json) : Prop :=
  ∀ inner, Schema.Nested inner schema → Schema.IsDefinition inner →
    ∃ name stored, inner.textMember? "name" = some name ∧ (name, stored) ∈ entries ∧
    inner.same stored = true

/-- Every definition inside one of the entries is among the entries before it. -/
def Closed (entries : List (String × Json)) : Prop :=
  ∀ before definition after, entries = before ++ definition :: after →
    Covers before definition.2

/-- **A registry is sound**: no name is repeated, and under each there is a definition that
comes after those inside it. -/
structure Sound (registry : Registry) : Prop where
  distinct : (Entries.keys registry).Nodup
  wellFormed : ∀ entry ∈ registry, entry.2.wellFormed = true
  definition : ∀ entry ∈ registry, Definition entry.1 entry.2
  closed : Closed registry

/-- Two entries have one name and equal trees. -/
def SameEntry (entry other : String × Json) : Prop :=
  entry.1 = other.1 ∧ entry.2.same other.2 = true

/-- **A registry grows into another**: this has all its entries first, in their places and as
equal trees. -/
def Grows (registry registry' : Registry) : Prop :=
  ∃ kept new, registry' = kept ++ new ∧ List.Forall₂ SameEntry registry kept

/-! ## Covered schemas -/

theorem Covers.mono {entries entries' : List (String × Json)} {schema : Json}
    (h : Covers entries schema) (hsubset : entries ⊆ entries') : Covers entries' schema := by
  intro inner hnested hdefinition
  obtain ⟨name, stored, hname, hmem, hsame⟩ := h inner hnested hdefinition
  exact ⟨name, stored, hname, hsubset hmem, hsame⟩

/-- A covered schema is covered by all entries that have an equal one for each. -/
theorem Covers.of_same_entries {entries entries' : List (String × Json)} {schema : Json}
    (h : Covers entries schema) (hschema : schema.wellFormed = true)
    (hentries : ∀ entry ∈ entries, entry.2.wellFormed = true)
    (hentries' : ∀ entry ∈ entries', entry.2.wellFormed = true)
    (hsame : ∀ entry ∈ entries, ∃ other ∈ entries', SameEntry entry other) :
    Covers entries' schema := by
  intro inner hnested hdefinition
  obtain ⟨name, stored, hname, hmem, hstored⟩ := h inner hnested hdefinition
  obtain ⟨⟨name', other⟩, hother, rfl, hequal⟩ := hsame _ hmem
  have hinner := Json.wellFormed_of_within hschema hnested.within
  exact ⟨name, other, hname, hother,
    Json.same_trans hinner (hentries _ hmem) (hentries' _ hother) hstored hequal⟩

/-- What covers a schema covers an equal one. -/
theorem Covers.of_same {entries : List (String × Json)} {schema schema' : Json}
    (h : Covers entries schema) (hschema : schema.wellFormed = true)
    (hschema' : schema'.wellFormed = true)
    (hentries : ∀ entry ∈ entries, entry.2.wellFormed = true)
    (hsame : schema.same schema' = true) :
    Covers entries schema' := by
  intro inner hnested hdefinition
  obtain ⟨original, horiginal, hwell, hequal⟩ :=
    Schema.exists_nested_of_same hschema hschema' hsame hnested
  have hinner := Json.wellFormed_of_within hschema' hnested.within
  obtain ⟨name, stored, hname, hmem, hstored⟩ :=
    h original horiginal (Schema.isDefinition_of_same hwell hinner hequal hdefinition)
  refine ⟨name, stored, ?_, hmem, ?_⟩
  · rw [← Json.textMember?_of_same hwell hinner hequal, hname]
  · exact Json.same_trans hinner hwell (hentries _ hmem) (Json.same_symm hwell hinner hequal)
      hstored

/-! ## Closed entries -/

theorem Closed.nil : Closed [] := by
  intro before definition after h
  simp at h

theorem Closed.initial {entries others : List (String × Json)} (h : Closed entries)
    (hstart : others <+: entries) :
    Closed others := by
  obtain ⟨rest, rfl⟩ := hstart
  rintro before definition after rfl
  exact h before definition (after ++ rest) (by simp)

theorem Closed.append {entries others : List (String × Json)} (h : Closed entries)
    (hothers : ∀ before definition after, others = before ++ definition :: after →
      Covers (entries ++ before) definition.2) : Closed (entries ++ others) := by
  intro before definition after heq
  rcases List.append_eq_append_iff.1 heq with ⟨between, rfl, hsplit⟩ | ⟨between, rfl, hsplit⟩
  · exact hothers between definition after hsplit
  · cases between with
    | nil =>
        have hcovers := hothers [] definition after hsplit.symm
        rwa [List.append_nil, List.append_nil] at hcovers
    | cons first rest =>
        obtain ⟨rfl, rfl⟩ := List.cons.inj hsplit
        exact h before _ rest rfl

theorem Closed.concat {entries : List (String × Json)} {definition : String × Json}
    (h : Closed entries) (hcovers : Covers entries definition.2) :
    Closed (entries ++ [definition]) := by
  refine h.append fun before other after heq => ?_
  cases before with
  | nil =>
      obtain ⟨rfl, -⟩ := List.cons.inj heq
      rwa [List.append_nil]
  | cons first rest => simp at heq

theorem Closed.flatMap {α : Type} {items : List α} {f : α → List (String × Json)}
    (h : ∀ item ∈ items, Closed (f item)) : Closed (items.flatMap f) := by
  induction items with
  | nil => exact .nil
  | cons item rest ih =>
      rw [List.forall_mem_cons] at h
      rw [List.flatMap_cons]
      refine h.1.append fun before definition after heq => ?_
      exact (ih h.2 before definition after heq).mono (List.subset_append_right _ _)

/-- Entries that are equal to closed ones, one by one, are closed. -/
theorem Closed.of_same {entries entries' : List (String × Json)} (h : Closed entries)
    (hentries : ∀ entry ∈ entries, entry.2.wellFormed = true)
    (hentries' : ∀ entry ∈ entries', entry.2.wellFormed = true)
    (hsame : List.Forall₂ SameEntry entries entries') :
    Closed entries' := by
  rintro before' definition' after' rfl
  -- The entries are cut where the equal ones are: what lies before the cut covers the same
  -- schemas on both sides.
  have hsplit : entries = entries.take before'.length ++ entries.drop before'.length :=
    (List.take_append_drop _ _).symm
  have htake := List.forall₂_take_append _ _ _ hsame
  have hdrop := List.forall₂_drop_append _ _ _ hsame
  obtain ⟨definition, after, hequal, -, heq⟩ := List.forall₂_cons_right_iff.1 hdrop
  rw [heq] at hsplit
  have hcovers := h _ definition after hsplit
  generalize entries.take before'.length = before at htake hsplit hcovers
  subst hsplit
  have hdefinition := hentries definition (by simp)
  have hdefinition' := hentries' definition' (by simp)
  have hbefore : ∀ entry ∈ before, entry.2.wellFormed = true :=
    fun entry hmem => hentries entry (List.mem_append_left _ hmem)
  have hbefore' : ∀ entry ∈ before', entry.2.wellFormed = true :=
    fun entry hmem => hentries' entry (List.mem_append_left _ hmem)
  refine (hcovers.of_same hdefinition hdefinition' hbefore hequal.2).of_same_entries
    hdefinition' hbefore hbefore' ?_
  exact fun entry hmem => exists_right_of_forall₂ htake hmem

/-! ## Growth -/

section Growth

variable {registry registry' registry'' : Registry}

theorem SameEntry.refl {entry : String × Json} (h : entry.2.wellFormed = true) :
    SameEntry entry entry :=
  ⟨rfl, Json.same_self h⟩

theorem sameEntries_refl (h : ∀ entry ∈ registry, entry.2.wellFormed = true) :
    List.Forall₂ SameEntry registry registry :=
  List.forall₂_same.2 fun entry hmem => .refl (h entry hmem)

theorem Grows.refl (h : ∀ entry ∈ registry, entry.2.wellFormed = true) :
    Grows registry registry :=
  ⟨registry, [], (List.append_nil _).symm, sameEntries_refl h⟩

/-- In a grown registry every entry has an equal one. -/
theorem Grows.exists_same (h : Grows registry registry') {entry : String × Json}
    (hmem : entry ∈ registry) :
    ∃ other ∈ registry', SameEntry entry other := by
  obtain ⟨kept, new, rfl, hkept⟩ := h
  obtain ⟨other, hother, hsame⟩ := exists_right_of_forall₂ hkept hmem
  exact ⟨other, List.mem_append_left _ hother, hsame⟩

theorem SameEntry.trans {x y z : String × Json} (hx : x.2.wellFormed = true)
    (hy : y.2.wellFormed = true) (hz : z.2.wellFormed = true) (hxy : SameEntry x y)
    (hyz : SameEntry y z) : SameEntry x z :=
  ⟨hxy.1.trans hyz.1, Json.same_trans hx hy hz hxy.2 hyz.2⟩

theorem Grows.trans (hfirst : Grows registry registry') (hsecond : Grows registry' registry'')
    (h : ∀ entry ∈ registry, entry.2.wellFormed = true)
    (h' : ∀ entry ∈ registry', entry.2.wellFormed = true)
    (h'' : ∀ entry ∈ registry'', entry.2.wellFormed = true) : Grows registry registry'' := by
  obtain ⟨kept, new, rfl, hkept⟩ := hfirst
  obtain ⟨kept', new', rfl, hkept'⟩ := hsecond
  have htake := List.forall₂_take kept.length hkept'
  rw [List.take_left] at htake
  refine ⟨kept'.take kept.length, kept'.drop kept.length ++ new', ?_, ?_⟩
  · rw [← List.append_assoc, List.take_append_drop]
  · refine forall₂_trans (fun x hx y hy z hz hxy hyz => ?_) hkept htake
    have hz' : z ∈ kept' ++ new' := List.mem_append_left _ (List.mem_of_mem_take hz)
    exact hxy.trans (h x hx) (h' y (List.mem_append_left _ hy)) (h'' z hz') hyz

/-- Whether definitions are consistent is told by definitions that are equal one by one. -/
theorem consistent_iff_of_sameEntries (hentries : ∀ entry ∈ registry, entry.2.wellFormed = true)
    (hothers : ∀ entry ∈ registry', entry.2.wellFormed = true)
    (h : List.Forall₂ SameEntry registry registry') :
    Consistent registry ↔ Consistent registry' := by
  constructor
  · intro hconsistent
    refine hconsistent.of_same hothers hentries fun name y hy => ?_
    obtain ⟨⟨_, x⟩, hx, rfl, hsame⟩ := exists_left_of_forall₂ h hy
    exact ⟨x, hx, Json.same_symm (hentries _ hx) (hothers _ hy) hsame⟩
  · intro hconsistent
    refine hconsistent.of_same hentries hothers fun name x hx => ?_
    obtain ⟨⟨_, y⟩, hy, rfl, hsame⟩ := exists_right_of_forall₂ h hx
    exact ⟨y, hy, hsame⟩

/-- Equal registries stay so if they are extended by equal definitions. -/
theorem sameEntries_extend {definitions definitions' : List (String × Json)}
    (h : List.Forall₂ SameEntry registry registry')
    (hdefinitions : List.Forall₂ SameEntry definitions definitions') :
    List.Forall₂ SameEntry (extend registry definitions) (extend registry' definitions') := by
  refine List.rel_foldl (fun entries others hentries definition definition' hdefinition => ?_) h
    hdefinitions
  rw [hdefinition.1]
  exact Entries.forall₂_insert (R := fun x y : Json => x.same y = true) hentries _ hdefinition.2

end Growth

/-! ## Entering definitions -/

/-- Entering a definition puts it into the place of an equal one, or at the end. -/
theorem exists_of_enter {registry registry' : Registry} {definition : String × Json}
    (h : enter registry definition = some registry') :
    (definition.1 ∉ Entries.keys registry ∧ registry' = registry ++ [definition]) ∨
      ∃ before stored after, registry = before ++ (definition.1, stored) :: after ∧
        stored.same definition.2 = true ∧ registry' = before ++ definition :: after := by
  obtain ⟨name, schema⟩ := definition
  obtain ⟨hstored, rfl⟩ := enter_eq_some_iff.1 h
  cases hlookup : registry.lookup name with
  | none =>
      rw [Entries.lookup_eq_none_iff] at hlookup
      exact .inl ⟨hlookup, Entries.insert_of_notMem hlookup⟩
  | some stored =>
      obtain ⟨before, after, rfl, hnew⟩ := List.lookup_eq_some_iff.1 hlookup
      have hname : name ∉ Entries.keys before := by
        intro hmem
        obtain ⟨x, hx⟩ := Entries.mem_keys.1 hmem
        simpa using hnew _ hx
      exact .inr ⟨before, stored, after, rfl, hstored stored hlookup,
        Entries.insert_append hname⟩

/-- **Entering a definition** whose inner definitions are there keeps a registry sound, and lets
it grow. -/
theorem Sound.enter {registry registry' : Registry} {definition : String × Json}
    (h : Sound registry) (hdefinition : Definition definition.1 definition.2)
    (hwell : definition.2.wellFormed = true) (hcovers : Covers registry definition.2)
    (henter : Registry.enter registry definition = some registry') :
    Sound registry' ∧ Grows registry registry' := by
  have hentries : ∀ entry ∈ registry', entry = definition ∨ entry ∈ registry := by
    intro entry hmem
    rw [(enter_eq_some_iff.1 henter).2] at hmem
    exact Entries.mem_of_mem_insert hmem
  have hwell' : ∀ entry ∈ registry', entry.2.wellFormed = true := by
    intro entry hmem
    rcases hentries entry hmem with rfl | hmem
    · exact hwell
    · exact h.wellFormed entry hmem
  have hdefinitions : ∀ entry ∈ registry', Definition entry.1 entry.2 := by
    intro entry hmem
    rcases hentries entry hmem with rfl | hmem
    · exact hdefinition
    · exact h.definition entry hmem
  have hdistinct : (Entries.keys registry').Nodup := by
    rw [(enter_eq_some_iff.1 henter).2]
    exact Entries.keys_nodup_insert h.distinct
  rcases exists_of_enter henter with ⟨-, rfl⟩ | ⟨before, stored, after, rfl, hsame, rfl⟩
  · refine ⟨⟨hdistinct, hwell', hdefinitions, h.closed.concat hcovers⟩, ?_⟩
    exact ⟨registry, [definition], rfl, sameEntries_refl h.wellFormed⟩
  · have hkept : List.Forall₂ SameEntry (before ++ (definition.1, stored) :: after)
        (before ++ definition :: after) := by
      have hbefore : List.Forall₂ SameEntry before before :=
        sameEntries_refl fun entry hmem => h.wellFormed entry (List.mem_append_left _ hmem)
      have hafter : List.Forall₂ SameEntry after after :=
        sameEntries_refl fun entry hmem => h.wellFormed entry (by simp [hmem])
      exact List.rel_append hbefore (.cons ⟨rfl, hsame⟩ hafter)
    refine ⟨⟨hdistinct, hwell', hdefinitions, h.closed.of_same h.wellFormed hwell' hkept⟩, ?_⟩
    exact ⟨_, [], (List.append_nil _).symm, hkept⟩

/-- **Entering definitions in order**, if they continue a closed list whose beginning is there,
keeps a registry sound, and lets it grow. -/
theorem Sound.enterAll {registry registry' : Registry} {entered rest : List (String × Json)}
    (h : Sound registry) (hclosed : Closed (entered ++ rest))
    (hentered : ∀ definition ∈ entered, definition.2.wellFormed = true)
    (hheld : ∀ definition ∈ entered, ∃ entry ∈ registry, SameEntry definition entry)
    (hrest : ∀ definition ∈ rest, Definition definition.1 definition.2 ∧
      definition.2.wellFormed = true)
    (henter : Registry.enterAll registry rest = some registry') :
    Sound registry' ∧ Grows registry registry' := by
  -- Definitions go over from those to come to those entered one at a time; each of these stays
  -- in the registry.
  induction rest generalizing registry entered with
  | nil =>
      obtain rfl : registry = registry' := Option.some.inj henter
      exact ⟨h, .refl h.wellFormed⟩
  | cons definition rest ih =>
      rw [List.forall_mem_cons] at hrest
      obtain ⟨⟨hdefinition, hwell⟩, hrest⟩ := hrest
      rw [enterAll_cons, Option.bind_eq_some_iff] at henter
      obtain ⟨next, hnext, henter⟩ := henter
      -- What is inside the definition was entered before it, and the registry has an equal
      -- entry for it.
      have hcovers : Covers registry definition.2 :=
        (hclosed entered definition rest rfl).of_same_entries hwell hentered h.wellFormed hheld
      obtain ⟨hsound, hgrows⟩ := h.enter hdefinition hwell hcovers hnext
      have hheld' : ∀ other ∈ entered ++ [definition], ∃ entry ∈ next,
          SameEntry other entry := by
        intro other hmem
        rcases List.mem_append.1 hmem with hmem | hmem
        · obtain ⟨entry, hentry, hsame⟩ := hheld other hmem
          obtain ⟨entry', hentry', hsame'⟩ := hgrows.exists_same hentry
          exact ⟨entry', hentry', hsame.trans (hentered other hmem) (h.wellFormed entry hentry)
            (hsound.wellFormed entry' hentry') hsame'⟩
        · obtain rfl := List.mem_singleton.1 hmem
          refine ⟨other, ?_, .refl hwell⟩
          rw [(enter_eq_some_iff.1 hnext).2]
          exact Entries.mem_insert_self _ _ _
      have hentered' : ∀ other ∈ entered ++ [definition], other.2.wellFormed = true := by
        intro other hmem
        rcases List.mem_append.1 hmem with hmem | hmem
        · exact hentered other hmem
        · rwa [List.mem_singleton.1 hmem]
      rw [List.append_cons] at hclosed
      obtain ⟨hsound', hgrows'⟩ := ih hsound hclosed hentered' hheld' hrest henter
      exact ⟨hsound', hgrows.trans hgrows' h.wellFormed hsound.wellFormed hsound'.wellFormed⟩

end Registry

/-! ## Definitions of a schema -/

namespace Schema

open Registry

/-- A definition is of a kind that carries a name, and states no namespace. -/
theorem isDefinition_of_mem_definitions {scope : String} {schema : Json}
    (h : schema.wellFormed = true) {definition : String × Json}
    (hmem : definition ∈ definitions scope schema) :
    IsDefinition definition.2 ∧ definition.2.member? "namespace" = none := by
  obtain ⟨scope', members, -, hwell, hown⟩ := exists_of_mem_definitions h hmem
  have hnodup := (Json.wellFormed_object_iff.1 hwell).1
  rw [ownDefinition] at hown
  split at hown
  next kind hkind =>
    split at hown
    next hnamed =>
      obtain rfl := List.mem_singleton.1 hown
      refine ⟨(isDefinition_qualified_iff hwell).2 ⟨kind, ?_, hnamed⟩, ?_⟩
      · rw [Json.textMember?, Json.member?, hkind]
        rfl
      · exact member?_namespace_qualified scope' hnodup hkind hnamed
    next => simp at hown
  next => simp at hown

theorem ownDefinition_eq_or (scope : String) (schema : Json) :
    ownDefinition scope schema = [] ∨
      ∃ name, ownDefinition scope schema = [(name, qualified scope schema)] := by
  unfold ownDefinition
  split
  · split
    · split
      · exact .inr ⟨_, rfl⟩
      · exact .inl rfl
    · exact .inl rfl
  · exact .inl rfl

/-- **The definitions of a schema come after those inside them.** -/
theorem closed_definitions (scope : String) {schema : Json} (h : schema.wellFormed = true) :
    Closed (definitions scope schema) := by
  induction scope, schema using Schema.induction with
  | step scope schema ih =>
      have hparts : Closed (definitionsOfAll (parts scope schema)) :=
        .flatMap fun part hpart =>
          ih part hpart (Json.wellFormed_of_within h (within_of_mem_parts hpart))
      have hcovers :
          Covers (definitionsOfAll (parts scope schema)) (qualified scope schema) := by
        intro inner hnested hinner
        obtain ⟨name, hname, hmem⟩ := exists_mem_definitions_of_nested h hnested hinner
        have hwell :=
          Json.wellFormed_of_within (wellFormed_qualified scope schema h) hnested.within
        exact ⟨name, inner, hname, hmem, Json.same_self hwell⟩
      rw [definitions_eq]
      rcases ownDefinition_eq_or scope schema with hown | ⟨name, hown⟩
      · rwa [hown, List.append_nil]
      · rw [hown]
        exact hparts.concat hcovers

/-! ## Runs -/

/-- **One qualification**, whatever comes of it, keeps a registry sound and lets it grow. -/
theorem qualifyIn_sound {registry : Registry} (h : registry.Sound) (scope : String)
    {schema : Json} (hschema : schema.wellFormed = true) :
    (qualifyIn registry scope schema).2.Sound ∧
    registry.Grows (qualifyIn registry scope schema).2 := by
  obtain ⟨done, hstart, hnamed, hdone⟩ := (described scope schema).exists_done registry
  have hclosed : Closed ([] ++ done) := (closed_definitions scope hschema).initial hstart
  refine h.enterAll hclosed (by simp) (by simp) (fun definition hmem => ?_) hdone
  have hdefinition := hstart.subset hmem
  obtain ⟨hkind, hspace⟩ := isDefinition_of_mem_definitions hschema hdefinition
  exact ⟨⟨hnamed definition hmem, name_of_mem_definitions hschema hdefinition, hkind, hspace⟩,
    wellFormed_of_mem_definitions hschema hdefinition⟩

/-- The registry after documents are qualified in scopes one after another, each of them
whatever came of those before it. -/
def registryAfter (registry : Registry) (calls : List (String × Json)) : Registry :=
  calls.foldl (fun registry call => (qualifyIn registry call.1 call.2).2) registry

theorem registryAfter_append (registry : Registry) (calls later : List (String × Json)) :
    registryAfter registry (calls ++ later) =
      registryAfter (registryAfter registry calls) later :=
  List.foldl_append

/-- A run of qualifications keeps a registry sound and lets it grow. -/
theorem sound_registryAfter {registry : Registry} (h : registry.Sound)
    {calls : List (String × Json)} (hcalls : ∀ call ∈ calls, call.2.wellFormed = true) :
    (registryAfter registry calls).Sound ∧ registry.Grows (registryAfter registry calls) := by
  induction calls generalizing registry with
  | nil => exact ⟨h, .refl h.wellFormed⟩
  | cons call rest ih =>
      rw [List.forall_mem_cons] at hcalls
      obtain ⟨hsound, hgrows⟩ := qualifyIn_sound h call.1 hcalls.1
      obtain ⟨hsound', hgrows'⟩ := ih hsound hcalls.2
      exact ⟨hsound', hgrows.trans hgrows' h.wellFormed hsound.wellFormed hsound'.wellFormed⟩

/-- **The registry over a whole run.**  In a run of qualifications that starts without
definitions, with any of them in vain, the registry is sound after each part of the run, and
from there to the end of the run it only grows. -/
theorem registryAfter_sound {calls : List (String × Json)}
    (hcalls : ∀ call ∈ calls, call.2.wellFormed = true) :
    ∀ earlier later, calls = earlier ++ later →
      (registryAfter [] earlier).Sound ∧
      Grows (registryAfter [] earlier) (registryAfter [] calls) := by
  rintro earlier later rfl
  rw [List.forall_mem_append] at hcalls
  have hempty : Registry.Sound [] := ⟨.nil, by simp, by simp, .nil⟩
  have hsound := (sound_registryAfter hempty hcalls.1).1
  refine ⟨hsound, ?_⟩
  rw [registryAfter_append]
  exact (sound_registryAfter hsound hcalls.2).2

/-- A record with an enum inside, a union that defines another enum before it fails, and the
first enum once more in another spelling. -/
def interruptedRun : List (String × Json) :=
  [("", outer),
    ("b", .array
      [.object [("type", .string "enum"), ("name", .string "Left"), ("symbols", .array [])],
      .object [("type", .string "map")]]),
    ("a", .object [("name", .string "Kind"), ("symbols", .array [.string "X"]),
      ("type", .string "enum")])]

/-- The registry keeps the enum of the failed union, and has the new spelling of the first enum
in the old place. -/
theorem registryAfter_interruptedRun :
    (∀ call ∈ interruptedRun, call.2.wellFormed = true) ∧
      registryAfter [] interruptedRun =
        [("a.Kind", .object [("name", .string "a.Kind"), ("symbols", .array [.string "X"]),
          ("type", .string "enum")]),
          ("a.Outer", qualified "" outer),
          ("b.Left", .object [("type", .string "enum"), ("name", .string "b.Left"),
            ("symbols", .array [])])] ∧
      (registryAfter [] interruptedRun).Sound ∧
      Grows (registryAfter [] [("", outer)]) (registryAfter [] interruptedRun) := by
  have hcalls : ∀ call ∈ interruptedRun, call.2.wellFormed = true := by
    simp only [interruptedRun, List.forall_mem_cons, List.not_mem_nil, false_imp_iff,
      forall_const, and_true]
    decide
  have hrun := registryAfter_sound hcalls
  exact ⟨hcalls, by rfl, (hrun interruptedRun [] (List.append_nil _).symm).1,
    (hrun [("", outer)] _ rfl).2⟩

end Schema

end AvroBindings
