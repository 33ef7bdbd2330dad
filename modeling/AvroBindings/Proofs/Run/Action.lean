import AvroBindings.Proofs.Results
import AvroBindings.Run.Workspace

/-!
# Performing actions

What an action in several parts does to a state, told by what its parts do.

## Main Statements

* `Action.perform_bind` — a sequence goes on with the rest where its first part succeeds.
* `Action.perform_bind_eq_ok_iff`, `Action.perform_seq_eq_ok_iff` — a sequence succeeds exactly
  if its parts do, one after another.
* `Action.perform_bind_eq_error_iff`, `Action.perform_seq_eq_error_iff` — a sequence is refused
  exactly where its first part is, or the rest after a first part that succeeds.
-/

namespace AvroBindings

namespace Action

variable {σ α β : Type}

@[simp] theorem perform_return (a : α) (state : σ) :
    (pure a : Action σ α).perform state = (.ok a, state) := rfl

@[simp] theorem perform_refusal (e : RunError) (state : σ) :
    (throw e : Action σ α).perform state = (.error e, state) := rfl

@[simp] theorem perform_get (state : σ) :
    (get : Action σ σ).perform state = (.ok state, state) := rfl

@[simp] theorem perform_set (state state' : σ) :
    (set state' : Action σ Unit).perform state = (.ok (), state') := rfl

@[simp] theorem perform_modify (f : σ → σ) (state : σ) :
    (modify f : Action σ Unit).perform state = (.ok (), f state) := rfl

/-- A sequence goes on with the rest where its first part succeeds. -/
theorem perform_bind (x : Action σ α) (f : α → Action σ β) (state : σ) :
    (x >>= f).perform state =
      match x.perform state with
      | (.ok a, next) => (f a).perform next
      | (.error e, next) => (.error e, next) := by
  change (ExceptT.bindCont f (x.run.run state).1).run (x.run.run state).2 = _
  unfold perform
  rcases x.run.run state with ⟨_ | _, next⟩ <;> rfl

/-- What is made of a result leaves the state that the result came with. -/
theorem exists_perform_of_return {x : Action σ α} {f : α → β} {state state' : σ}
    {outcome : Except RunError β}
    (h : (do return f (← x) : Action σ β).perform state = (outcome, state')) :
    ∃ result, x.perform state = (result, state') := by
  rw [perform_bind] at h
  rcases hx : x.perform state with ⟨error | a, next⟩
  · rw [hx] at h
    exact ⟨_, congrArg _ (Prod.mk.inj h).2⟩
  · rw [hx] at h
    exact ⟨_, congrArg _ (Prod.mk.inj h).2⟩

/-- **A sequence succeeds exactly if its parts do**, one after another. -/
theorem perform_bind_eq_ok_iff {x : Action σ α} {f : α → Action σ β} {state state' : σ}
    {b : β} :
    (x >>= f).perform state = (.ok b, state') ↔
      ∃ a next, x.perform state = (.ok a, next) ∧ (f a).perform next = (.ok b, state') :=
  run_run_bind_eq_ok_iff

/-- A sequence whose first part gives nothing succeeds exactly if both parts do. -/
theorem perform_seq_eq_ok_iff {x : Action σ Unit} {y : Action σ β} {state state' : σ} {b : β} :
    (do x; y).perform state = (.ok b, state') ↔
      ∃ next, x.perform state = (.ok (), next) ∧ y.perform next = (.ok b, state') := by
  rw [perform_bind_eq_ok_iff]
  constructor
  · rintro ⟨_, next, h⟩
    exact ⟨next, h⟩
  · rintro ⟨next, h⟩
    exact ⟨(), next, h⟩

/-- **A sequence is refused exactly where its first part is**, or the rest after a first part
that succeeds. -/
theorem perform_bind_eq_error_iff {x : Action σ α} {f : α → Action σ β} {state state' : σ}
    {e : RunError} :
    (x >>= f).perform state = (.error e, state') ↔
      x.perform state = (.error e, state') ∨
        ∃ a next, x.perform state = (.ok a, next) ∧
        (f a).perform next = (.error e, state') := by
  rw [perform_bind]
  rcases x.perform state with ⟨error | a, next⟩ <;> simp

/-- A sequence whose first part gives nothing is refused exactly where one of its parts is. -/
theorem perform_seq_eq_error_iff {x : Action σ Unit} {y : Action σ β} {state state' : σ}
    {e : RunError} :
    (do x; y).perform state = (.error e, state') ↔
      x.perform state = (.error e, state') ∨
        ∃ next, x.perform state = (.ok (), next) ∧ y.perform next = (.error e, state') := by
  rw [perform_bind_eq_error_iff]
  exact or_congr_right ⟨fun ⟨_, next, h⟩ => ⟨next, h⟩, fun ⟨next, h⟩ => ⟨(), next, h⟩⟩

/-- A sequence is not refused for a reason for which neither of its parts is. -/
theorem perform_bind_ne_error {x : Action σ α} {f : α → Action σ β} {state : σ} {e : RunError}
    (hx : (x.perform state).1 ≠ .error e)
    (hf : ∀ a next, x.perform state = (.ok a, next) → ((f a).perform next).1 ≠ .error e) :
    ((x >>= f).perform state).1 ≠ .error e := by
  intro herror
  rcases perform_bind_eq_error_iff.1 (Prod.ext herror rfl) with
    hfirst | ⟨a, next, hfirst, hrest⟩
  · exact hx (congrArg Prod.fst hfirst)
  · exact hf a next hfirst (congrArg Prod.fst hrest)

end Action

end AvroBindings
