import AvroBindings.Proofs.Json.Same
import AvroBindings.Proofs.Results
import AvroBindings.Schema.Qualify

/-!
# Entering definitions

What a computation that enters definitions into a registry does, told by the definitions alone:
which ones, in which order, and what it gives.  Whether definitions can be entered one after
another is then told without an order.

## Main Definitions

* `Registry.enter`, `Registry.enterAll` — one definition, or several in order, put into a
  registry that has no different one of the name.
* `Registering.Meets` — a computation enters certain definitions and gives a certain value, from
  every registry.
* `Registering.Runs` — the same, and what it leaves behind where it is interrupted.
* `Registry.Consistent`, `Registry.extend` — definitions of one name are equal; a registry after
  definitions.

## Main Statements

* `Registry.enterAll_eq_some_iff` — definitions can be entered in order exactly if they agree
  with the registry and with one another.
* `Registering.Meets.bind`, `Registering.Runs.bind` — what computations in sequence do.
* `Registering.Runs.exists_done` — what is in the registry after a computation, whatever comes
  of it.
-/

namespace AvroBindings

/-! ## Registries -/

namespace Registry

/-- A registry after one more definition, unless a different one of the name is there. -/
def enter (registry : Registry) (definition : String × Json) : Option Registry :=
  match registry.lookup definition.1 with
  | some stored =>
      if stored.same definition.2 then some (Entries.insert definition.1 definition.2 registry)
        else none
  | none => some (Entries.insert definition.1 definition.2 registry)

/-- A registry after several definitions in order. -/
def enterAll (registry : Registry) (definitions : List (String × Json)) : Option Registry :=
  definitions.foldlM enter registry

/-- All definitions of one name are equal. -/
def Consistent (definitions : List (String × Json)) : Prop :=
  ∀ name x y, (name, x) ∈ definitions → (name, y) ∈ definitions → x.same y = true

/-- A registry with definitions put in one after another: a new name goes to the end, and a name
that is there keeps its place and gets the later spelling. -/
def extend (registry : Registry) (definitions : List (String × Json)) : Registry :=
  definitions.foldl (fun registry definition =>
    Entries.insert definition.1 definition.2 registry) registry

theorem enterAll_append (registry : Registry) (first second : List (String × Json)) :
    enterAll registry (first ++ second) = (enterAll registry first).bind fun registry =>
      enterAll registry second :=
  List.foldlM_append

theorem enterAll_cons (registry : Registry) (definition : String × Json)
    (rest : List (String × Json)) :
    enterAll registry (definition :: rest) = (enter registry definition).bind fun registry =>
      enterAll registry rest :=
  List.foldlM_cons

/-- A definition can be entered exactly if the one of its name, if there is one, is equal. -/
theorem enter_eq_some_iff {registry registry' : Registry} {name : String} {schema : Json} :
    enter registry (name, schema) = some registry' ↔
      (∀ stored, registry.lookup name = some stored → stored.same schema = true) ∧
        registry' = Entries.insert name schema registry := by
  unfold enter
  constructor
  · intro h
    split at h
    next stored hlookup =>
      split at h
      next hsame =>
        refine ⟨fun other hother => ?_, (Option.some.inj h).symm⟩
        obtain rfl : stored = other := Option.some.inj (hlookup.symm.trans hother)
        exact hsame
      next => contradiction
    next hlookup =>
      refine ⟨fun other hother => ?_, (Option.some.inj h).symm⟩
      exact absurd (hlookup.symm.trans hother) (by simp)
  · rintro ⟨hstored, rfl⟩
    split
    next stored hlookup => rw [if_pos (hstored stored hlookup)]
    next => rfl

/-- A definition cannot be entered exactly if a different one of its name is there. -/
theorem enter_eq_none_iff {registry : Registry} {name : String} {schema : Json} :
    enter registry (name, schema) = none ↔
      ∃ stored, registry.lookup name = some stored ∧ stored.same schema = false := by
  unfold enter
  cases registry.lookup name with
  | none => simp
  | some stored => simp

/-- After several definitions a registry has entries of its own and of theirs. -/
theorem mem_or_mem_of_enterAll {registry registry' : Registry}
    {definitions : List (String × Json)} (h : enterAll registry definitions = some registry') :
    ∀ entry ∈ registry', entry ∈ registry ∨ entry ∈ definitions := by
  induction definitions generalizing registry with
  | nil =>
      obtain rfl := Option.some.inj h
      exact fun entry => .inl
  | cons definition rest ih =>
      rw [enterAll_cons, Option.bind_eq_some_iff] at h
      obtain ⟨next, hnext, hrest⟩ := h
      intro entry hentry
      rcases ih hrest entry hentry with hmem | hmem
      · rw [(enter_eq_some_iff.1 hnext).2] at hmem
        rcases Entries.mem_of_mem_insert hmem with rfl | hmem
        · exact .inr List.mem_cons_self
        · exact .inl hmem
      · exact .inr (List.mem_cons_of_mem _ hmem)

theorem Consistent.mono {definitions others : List (String × Json)} (h : Consistent definitions)
    (hsubset : others ⊆ definitions) : Consistent others :=
  fun name x y hx hy => h name x y (hsubset hx) (hsubset hy)

/-- Well-formed definitions are consistent if each has an equal one of its name among consistent
ones. -/
theorem Consistent.of_same {definitions others : List (String × Json)} (h : Consistent others)
    (hwell : ∀ definition ∈ definitions, definition.2.wellFormed = true)
    (hwell' : ∀ definition ∈ others, definition.2.wellFormed = true)
    (hsame : ∀ name x, (name, x) ∈ definitions → ∃ x', (name, x') ∈ others ∧ x.same x' = true) :
    Consistent definitions := by
  intro name x y hx hy
  obtain ⟨x', hx', hxx'⟩ := hsame name x hx
  obtain ⟨y', hy', hyy'⟩ := hsame name y hy
  have hwx := hwell _ hx
  have hwy := hwell _ hy
  have hwx' := hwell' _ hx'
  have hwy' := hwell' _ hy'
  have hy'y : y'.same y = true := Json.same_symm hwy hwy' hyy'
  have hxy' : x.same y' = true := Json.same_trans hwx hwx' hwy' hxx' (h name x' y' hx' hy')
  exact Json.same_trans hwx hwy' hwy hxy' hy'y

/-- Entering one definition first changes nothing about whether all are consistent. -/
theorem consistent_cons_iff {registry : Registry} {name : String} {schema : Json}
    {rest : List (String × Json)} (hnodup : (Entries.keys registry).Nodup)
    (hregistry : ∀ entry ∈ registry, entry.2.wellFormed = true)
    (hschema : schema.wellFormed = true)
    (hrest : ∀ definition ∈ rest, definition.2.wellFormed = true) :
    Consistent (registry ++ (name, schema) :: rest) ↔
      (∀ stored, registry.lookup name = some stored → stored.same schema = true) ∧
        Consistent (Entries.insert name schema registry ++ rest) := by
  constructor
  · intro h
    refine ⟨fun stored hstored => ?_, h.mono ?_⟩
    · exact h name stored schema (List.mem_append_left _ (Entries.mem_of_lookup hstored))
        (by simp)
    · refine List.append_subset.2 ⟨fun entry hentry => ?_,
        fun definition hmem => by simp [hmem]⟩
      rcases Entries.mem_of_mem_insert hentry with rfl | hmem
      · simp
      · exact List.mem_append_left _ hmem
  · rintro ⟨hstored, h⟩
    have hmem : (name, schema) ∈ Entries.insert name schema registry ++ rest :=
      List.mem_append_left _ (Entries.mem_insert_self name schema registry)
    refine h.of_same ?_ ?_ fun other x hx => ?_
    · intro definition hdefinition
      rcases List.mem_append.1 hdefinition with hmem | hmem
      · exact hregistry _ hmem
      · rcases List.mem_cons.1 hmem with rfl | hmem
        · exact hschema
        · exact hrest _ hmem
    · intro definition hdefinition
      rcases List.mem_append.1 hdefinition with hmem | hmem
      · rcases Entries.mem_of_mem_insert hmem with rfl | hmem
        · exact hschema
        · exact hregistry _ hmem
      · exact hrest _ hmem
    · -- Only the definition that was replaced is gone, and it is equal to the new one.
      rcases List.mem_append.1 hx with hentry | hdefinition
      · by_cases hname : other = name
        · subst hname
          have hlookup := (Entries.lookup_eq_some_iff_mem hnodup).2 hentry
          exact ⟨schema, hmem, hstored x hlookup⟩
        · have hkept : (other, x) ∈ Entries.insert name schema registry :=
            Entries.mem_insert_of_ne hname hentry
          exact ⟨x, List.mem_append_left _ hkept, Json.same_self (hregistry _ hentry)⟩
      · rcases List.mem_cons.1 hdefinition with heq | hdefinition
        · obtain ⟨rfl, rfl⟩ := Prod.mk.inj heq
          exact ⟨x, hmem, Json.same_self hschema⟩
        · exact ⟨x, List.mem_append_right _ hdefinition, Json.same_self (hrest _ hdefinition)⟩

/-- **Definitions can be entered in order exactly if they are consistent** with one another and
with those that are there. -/
theorem enterAll_eq_some_iff {registry registry' : Registry}
    {definitions : List (String × Json)} (hnodup : (Entries.keys registry).Nodup)
    (hregistry : ∀ entry ∈ registry, entry.2.wellFormed = true)
    (hdefinitions : ∀ definition ∈ definitions, definition.2.wellFormed = true) :
    enterAll registry definitions = some registry' ↔
      Consistent (registry ++ definitions) ∧ registry' = extend registry definitions := by
  induction definitions generalizing registry with
  | nil =>
      rw [List.append_nil]
      -- A registry has one definition of each name.
      have hconsistent : Consistent registry := by
        intro name x y hx hy
        have hlookup := (Entries.lookup_eq_some_iff_mem hnodup).2 hx
        have hlookup' := (Entries.lookup_eq_some_iff_mem hnodup).2 hy
        obtain rfl : x = y := Option.some.inj (hlookup.symm.trans hlookup')
        exact Json.same_self (hregistry _ hx)
      simp [hconsistent, enterAll, extend, eq_comm]
  | cons definition rest ih =>
      obtain ⟨name, schema⟩ := definition
      have hschema := hdefinitions _ List.mem_cons_self
      have hrest : ∀ definition ∈ rest, definition.2.wellFormed = true :=
        fun definition hmem => hdefinitions _ (List.mem_cons_of_mem _ hmem)
      have hregistry' : ∀ entry ∈ Entries.insert name schema registry,
          entry.2.wellFormed = true := by
        intro entry hentry
        rcases Entries.mem_of_mem_insert hentry with rfl | hmem
        · exact hschema
        · exact hregistry _ hmem
      rw [enterAll_cons, consistent_cons_iff hnodup hregistry hschema hrest, and_assoc,
        Option.bind_eq_some_iff]
      constructor
      · rintro ⟨next, hnext, hall⟩
        obtain ⟨hstored, rfl⟩ := enter_eq_some_iff.1 hnext
        exact ⟨hstored, (ih (Entries.keys_nodup_insert hnodup) hregistry' hrest).1 hall⟩
      · rintro ⟨hstored, hall⟩
        refine ⟨_, enter_eq_some_iff.2 ⟨hstored, rfl⟩, ?_⟩
        exact (ih (Entries.keys_nodup_insert hnodup) hregistry' hrest).2 hall

end Registry

/-! ## Computations -/

namespace Registering

variable {α β : Type}

/-- The outcome of a computation from a registry, and the registry after it. -/
def outcome (x : Registering α) (registry : Registry) : Except SchemaError α × Registry :=
  x.run.run registry

theorem outcome_return (a : α) (registry : Registry) :
    outcome (pure a) registry = (.ok a, registry) := rfl

theorem outcome_refusal (e : SchemaError) (registry : Registry) :
    outcome (throw e : Registering α) registry = (.error e, registry) := rfl

theorem outcome_lift (x : Except SchemaError α) (registry : Registry) :
    outcome (liftM x : Registering α) registry = (x, registry) := rfl

/-- A sequence goes on with the rest where its first part succeeds. -/
theorem outcome_bind (x : Registering α) (f : α → Registering β) (registry : Registry) :
    outcome (x >>= f) registry =
      match outcome x registry with
      | (.ok a, next) => outcome (f a) next
      | (.error e, next) => (.error e, next) := by
  change (ExceptT.bindCont f (x.run.run registry).1).run (x.run.run registry).2 = _
  unfold outcome
  rcases x.run.run registry with ⟨_ | _, next⟩ <;> rfl

theorem outcome_bind_eq_ok_iff {x : Registering α} {f : α → Registering β}
    {registry registry' : Registry} {b : β} :
    outcome (x >>= f) registry = (.ok b, registry') ↔
      ∃ a next, outcome x registry = (.ok a, next) ∧ outcome (f a) next = (.ok b, registry') :=
  run_run_bind_eq_ok_iff

/-- Registering succeeds exactly if the definition can be entered; it leaves the registry as it
is otherwise. -/
theorem outcome_register (name : String) (schema : Json) (registry : Registry) :
    outcome (Schema.register name schema) registry =
      match Registry.enter registry (name, schema) with
      | some next => (.ok schema, next)
      | none => (.error (.invalid (.definedTwice name) schema), registry) := by
  have hget : outcome (get : Registering Registry) registry = (.ok registry, registry) := rfl
  have hmodify :
      outcome (modify (Entries.insert name schema) >>= fun _ => pure schema) registry =
      (.ok schema, Entries.insert name schema registry) := rfl
  unfold Schema.register Registry.enter
  rw [outcome_bind, hget]
  dsimp only
  cases List.lookup name registry with
  | none => exact hmodify
  | some stored =>
      dsimp only
      cases stored.same schema with
      | true => exact hmodify
      | false => rfl

/-- **A computation meets a description**: from every registry it succeeds exactly if a
condition holds and certain definitions can be entered in order, and then it gives a certain
value and the registry has those definitions. -/
def Meets (x : Registering α) (sound : Prop) (entered : List (String × Json)) (a : α) : Prop :=
  ∀ registry b registry', outcome x registry = (.ok b, registry') ↔
    sound ∧ Registry.enterAll registry entered = some registry' ∧ b = a

namespace Meets

variable {sound sound' : Prop} {entered entered' : List (String × Json)}

theorem «return» (a : α) : Meets (pure a) True [] a := by
  intro registry b registry'
  simp only [outcome_return, Prod.mk.injEq, Except.ok.injEq, Registry.enterAll, List.foldlM_nil,
    true_and]
  constructor
  · rintro ⟨rfl, rfl⟩
    exact ⟨rfl, rfl⟩
  · rintro ⟨h, rfl⟩
    exact ⟨rfl, Option.some.inj h⟩

/-- A refusal meets every description with a false condition. -/
theorem refusal (e : SchemaError) (hsound : ¬sound) (a : α) :
    Meets (throw e) sound entered a := by
  intro registry b registry'
  simp [outcome_refusal, hsound]

/-- What comes after a refusal does not matter. -/
theorem refusal_bind (e : SchemaError) (f : α → Registering β) (hsound : ¬sound) (b : β) :
    Meets (throw e >>= f) sound entered b := by
  intro registry c registry'
  rw [outcome_bind, outcome_refusal]
  simp [hsound]

/-- A result that does not depend on the registry enters nothing. -/
theorem lift {x : Except SchemaError α} {a : α} (h : ∀ b, x = .ok b ↔ sound ∧ b = a) :
    Meets (liftM x) sound [] a := by
  intro registry b registry'
  rw [outcome_lift, Prod.mk.injEq, h b]
  simp [Registry.enterAll, and_assoc, and_comm]

/-- **Computations in sequence** enter the definitions of the one and then those of the
other. -/
theorem bind {x : Registering α} {f : α → Registering β} {a : α} {b : β}
    (hx : Meets x sound entered a) (hf : sound → Meets (f a) sound' entered' b) :
    Meets (x >>= f) (sound ∧ sound') (entered ++ entered') b := by
  intro registry c registry'
  rw [outcome_bind_eq_ok_iff, Registry.enterAll_append, Option.bind_eq_some_iff]
  constructor
  · rintro ⟨a', next, hrun, hrun'⟩
    obtain ⟨hsound, hnext, rfl⟩ := (hx _ _ _).1 hrun
    obtain ⟨hsound', hregistry', rfl⟩ := (hf hsound _ _ _).1 hrun'
    exact ⟨⟨hsound, hsound'⟩, ⟨next, hnext, hregistry'⟩, rfl⟩
  · rintro ⟨⟨hsound, hsound'⟩, ⟨next, hnext, hregistry'⟩, rfl⟩
    exact ⟨a, next, (hx _ _ _).2 ⟨hsound, hnext, rfl⟩,
      (hf hsound _ _ _).2 ⟨hsound', hregistry', rfl⟩⟩

/-- Registering enters the definition. -/
theorem register (name : String) (schema : Json) :
    Meets (Schema.register name schema) True [(name, schema)] schema := by
  intro registry b registry'
  rw [outcome_register, Registry.enterAll_cons, Option.bind_eq_some_iff]
  cases Registry.enter registry (name, schema) with
  | none => simp
  | some next => simp [Registry.enterAll, eq_comm, and_comm]

end Meets

/-- All definitions have full names. -/
def Named (definitions : List (String × Json)) : Prop :=
  ∀ definition ∈ definitions, Name.isFull definition.1 = true

/-- **A computation runs as described**: it meets its description, and where it is interrupted
it has entered the first few of the definitions.  What it enters has full names either way.  If
its condition holds, only a definition that cannot be entered interrupts it, and that is what it
is refused for. -/
structure Runs (x : Registering α) (sound : Prop) (entered : List (String × Json)) (a : α) :
    Prop where
  meets : Meets x sound entered a
  named : sound → Named entered
  interrupted : ∀ registry e registry', outcome x registry = (.error e, registry') →
    ∃ done, done <+: entered ∧ Named done ∧ Registry.enterAll registry done = some registry'
  refused : sound → ∀ registry e registry', outcome x registry = (.error e, registry') →
    ∃ done name schema, e = .invalid (.definedTwice name) schema ∧
      done ++ [(name, schema)] <+: entered ∧
      Registry.enterAll registry done = some registry' ∧
      Registry.enter registry' (name, schema) = none

namespace Runs

variable {sound sound' : Prop} {entered entered' : List (String × Json)}

/-- **Whatever comes of it**, a computation has entered the first few of the definitions. -/
theorem exists_done {x : Registering α} {a : α} (h : Runs x sound entered a)
    (registry : Registry) :
    ∃ done, done <+: entered ∧ Named done ∧
      Registry.enterAll registry done = some (outcome x registry).2 := by
  cases hrun : outcome x registry with
  | mk result registry' =>
      cases result with
      | error e => exact h.interrupted registry e registry' hrun
      | ok b =>
          obtain ⟨hsound, hall, -⟩ := (h.meets registry b registry').1 hrun
          exact ⟨entered, List.prefix_refl _, h.named hsound, hall⟩

theorem congr {x : Registering α} {a : α} (h : Runs x sound entered a)
    (hsound : sound ↔ sound') :
    Runs x sound' entered a := by
  rw [← propext hsound]
  exact h

theorem «return» (a : α) : Runs (pure a) True [] a where
  meets := .return a
  named _ := by simp [Named]
  interrupted registry e registry' h := by simp [outcome_return] at h
  refused _ registry e registry' h := by simp [outcome_return] at h

theorem interrupted_refusal (entered : List (String × Json)) (e : SchemaError)
    (registry : Registry) :
    ∃ done, done <+: entered ∧ Named done ∧
      Registry.enterAll registry done = some (outcome (throw e : Registering α) registry).2 :=
  ⟨[], List.nil_prefix, by simp [Named], rfl⟩

/-- A refusal runs as every description with a false condition says. -/
theorem refusal (e : SchemaError) (hsound : ¬sound) (a : α) :
    Runs (throw e) sound entered a where
  meets := .refusal e hsound a
  named h := absurd h hsound
  interrupted registry e' registry' h := by
    have hdone := interrupted_refusal (α := α) entered e registry
    rwa [h] at hdone
  refused h := absurd h hsound

/-- What comes after a refusal does not matter. -/
theorem refusal_bind (e : SchemaError) (f : α → Registering β) (hsound : ¬sound) (b : β) :
    Runs (throw e >>= f) sound entered b where
  meets := .refusal_bind e f hsound b
  named h := absurd h hsound
  interrupted registry e' registry' h := by
    have hdone := interrupted_refusal (α := β) entered e registry
    have hrun : outcome (throw e >>= f) registry =
        outcome (throw e : Registering β) registry := by
      rw [outcome_bind, outcome_refusal, outcome_refusal]
    rwa [← hrun, h] at hdone
  refused h := absurd h hsound

/-- A result that does not depend on the registry enters nothing. -/
theorem lift {x : Except SchemaError α} {a : α} (h : ∀ b, x = .ok b ↔ sound ∧ b = a) :
    Runs (liftM x) sound [] a where
  meets := .lift h
  named _ := by simp [Named]
  interrupted registry e registry' hrun := by
    rw [outcome_lift] at hrun
    obtain ⟨-, rfl⟩ := Prod.mk.inj hrun
    exact ⟨[], List.prefix_refl _, by simp [Named], rfl⟩
  refused hsound registry e registry' hrun := by
    rw [outcome_lift, (h a).2 ⟨hsound, rfl⟩] at hrun
    simp at hrun

/-- **Computations in sequence** enter the definitions of the one and then those of the other.
If the second is interrupted, those of the first are all there. -/
theorem bind {x : Registering α} {f : α → Registering β} {a : α} {b : β}
    (hx : Runs x sound entered a) (hf : sound → Runs (f a) sound' entered' b) :
    Runs (x >>= f) (sound ∧ sound') (entered ++ entered') b where
  meets := hx.meets.bind fun hsound => (hf hsound).meets
  named := by
    rintro ⟨hsound, hsound'⟩ definition hmem
    rcases List.mem_append.1 hmem with hmem | hmem
    · exact hx.named hsound definition hmem
    · exact (hf hsound).named hsound' definition hmem
  interrupted registry e registry' h := by
    rw [outcome_bind] at h
    cases hrun : outcome x registry with
    | mk result next =>
        rw [hrun] at h
        cases result with
        | error e' =>
            obtain ⟨-, rfl⟩ := Prod.mk.inj h
            obtain ⟨done, hprefix, hnamed, hdone⟩ := hx.interrupted registry e' next hrun
            exact ⟨done, hprefix.trans (List.prefix_append _ _), hnamed, hdone⟩
        | ok a' =>
            obtain ⟨hsound, hnext, rfl⟩ := (hx.meets _ _ _).1 hrun
            obtain ⟨done, hprefix, hnamed, hdone⟩ := (hf hsound).interrupted next e registry' h
            refine ⟨entered ++ done, (List.prefix_append_right_inj _).2 hprefix,
              fun definition hmem => ?_, ?_⟩
            · rcases List.mem_append.1 hmem with hmem | hmem
              · exact hx.named hsound definition hmem
              · exact hnamed definition hmem
            · rw [Registry.enterAll_append, hnext]
              exact hdone
  refused := by
    rintro ⟨hsound, hsound'⟩ registry e registry' h
    rw [outcome_bind] at h
    cases hrun : outcome x registry with
    | mk result next =>
        rw [hrun] at h
        cases result with
        | error e' =>
            obtain ⟨he, rfl⟩ := Prod.mk.inj h
            obtain rfl := Except.error.inj he
            obtain ⟨done, name, schema, rfl, hprefix, hdone⟩ :=
              hx.refused hsound registry _ next hrun
            exact ⟨done, name, schema, rfl, hprefix.trans (List.prefix_append _ _), hdone⟩
        | ok a' =>
            obtain ⟨-, hnext, rfl⟩ := (hx.meets _ _ _).1 hrun
            obtain ⟨done, name, schema, rfl, hprefix, hdone, hrefused⟩ :=
              (hf hsound).refused hsound' next e registry' h
            refine ⟨entered ++ done, name, schema, rfl, ?_, ?_, hrefused⟩
            · rw [List.append_assoc]
              exact (List.prefix_append_right_inj _).2 hprefix
            · rw [Registry.enterAll_append, hnext]
              exact hdone

/-- What is made of the value of a computation. -/
theorem map {x : Registering α} {a : α} (f : α → β) (hx : Runs x sound entered a) :
    Runs (x >>= fun a => pure (f a)) sound entered (f a) := by
  have h := hx.bind (f := fun a => pure (f a)) fun _ => Runs.return (f a)
  rw [List.append_nil] at h
  exact h.congr (and_iff_left trivial)

/-- Registering enters the definition or nothing. -/
theorem register {name : String} (hfull : Name.isFull name = true) (schema : Json) :
    Runs (Schema.register name schema) True [(name, schema)] schema where
  meets := .register name schema
  named _ := List.forall_mem_singleton.2 hfull
  interrupted registry e registry' h := by
    rw [outcome_register] at h
    split at h
    · simp at h
    · obtain ⟨-, rfl⟩ := Prod.mk.inj h
      exact ⟨[], List.nil_prefix, by simp [Named], rfl⟩
  refused _ registry e registry' h := by
    rw [outcome_register] at h
    split at h
    · simp at h
    next hrefused =>
      obtain ⟨he, rfl⟩ := Prod.mk.inj h
      exact ⟨[], name, schema, (Except.error.inj he).symm, List.prefix_refl _, rfl, hrefused⟩

end Runs

end Registering

end AvroBindings
