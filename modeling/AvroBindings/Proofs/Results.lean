import Mathlib.Data.List.Forall2

/-!
# Results of steps in sequence

When steps of which each may be refused succeed: all of them do, each with the results of those
before it.

## Main Statements

* `bind_eq_ok_iff`, `seq_eq_ok_iff` — two steps.
* `bind_ne_error` — two steps neither of which is refused for a certain reason.
* `mapM_eq_ok_iff` — the same step on every item of a list.
* `forall₂_iff_exists_map` — steps whose results are made of those of others.
* `run_run_bind_eq_ok_iff` — two steps on a state.
* `exists_eq_ok` — what a success on a state leaves.
-/

namespace AvroBindings

variable {ε α β : Type}

/-- A sequence succeeds exactly if its first step does and then the rest. -/
theorem bind_eq_ok_iff {x : Except ε α} {f : α → Except ε β} {b : β} :
    (x >>= f) = .ok b ↔ ∃ a, x = .ok a ∧ f a = .ok b := by
  cases x with
  | error e => simp [bind, Except.bind]
  | ok a => simp [bind, Except.bind]

/-- A sequence whose first step gives nothing succeeds exactly if both steps do. -/
theorem seq_eq_ok_iff {x : Except ε Unit} {y : Except ε β} {b : β} :
    (do x; y) = .ok b ↔ x = .ok () ∧ y = .ok b :=
  bind_eq_ok_iff.trans ⟨fun ⟨_, h⟩ => h, fun h => ⟨(), h⟩⟩

/-- A sequence is not refused for a reason for which none of its steps is refused. -/
theorem bind_ne_error {x : Except ε α} {f : α → Except ε β} {e : ε} (hx : x ≠ .error e)
    (hf : ∀ a, f a ≠ .error e) :
    (x >>= f) ≠ .error e := by
  cases x with
  | error e' => simpa [bind, Except.bind] using hx
  | ok a => exact hf a

/-- A step on every item of a list succeeds exactly if it does on each. -/
theorem mapM_eq_ok_iff {f : α → Except ε β} {xs : List α} {ys : List β} :
    xs.mapM f = .ok ys ↔ List.Forall₂ (fun x y => f x = .ok y) xs ys := by
  induction xs generalizing ys with
  | nil => simp [pure, Except.pure, eq_comm]
  | cons x xs ih =>
      rw [List.mapM_cons, bind_eq_ok_iff, List.forall₂_cons_left_iff]
      constructor
      · rintro ⟨y, hy, h⟩
        obtain ⟨rest, hrest, h⟩ := bind_eq_ok_iff.1 h
        exact ⟨y, rest, hy, ih.1 hrest, (Except.ok.inj h).symm⟩
      · rintro ⟨y, rest, hy, hrest, rfl⟩
        exact ⟨y, hy, bind_eq_ok_iff.2 ⟨rest, ih.2 hrest, rfl⟩⟩

/-- What is made of a result is there exactly if the result is. -/
theorem map_eq_ok_iff {f : α → β} {x : Except ε α} {b : β} :
    x.map f = .ok b ↔ ∃ a, x = .ok a ∧ b = f a := by
  cases x with
  | error e => simp [Except.map]
  | ok a => simp [Except.map, eq_comm]

/-- Where each result of one step is made of one of another, so are all results on a list. -/
theorem forall₂_iff_exists_map {γ : Type} {f : α → Except ε β} {g : α → Except ε γ} {h : β → γ}
    (hstep : ∀ x z, g x = .ok z ↔ ∃ y, f x = .ok y ∧ z = h y) {xs : List α} {zs : List γ} :
    List.Forall₂ (fun x z => g x = .ok z) xs zs ↔
      ∃ ys, List.Forall₂ (fun x y => f x = .ok y) xs ys ∧ zs = ys.map h := by
  simp only [hstep]
  induction xs generalizing zs with
  | nil => simp
  | cons x rest ih =>
      simp only [List.forall₂_cons_left_iff, ih]
      constructor
      · rintro ⟨_, _, ⟨y, hy, rfl⟩, ⟨ys, hys, rfl⟩, rfl⟩
        exact ⟨y :: ys, ⟨y, ys, hy, hys, rfl⟩, rfl⟩
      · rintro ⟨_, ⟨y, ys, hy, hys, rfl⟩, rfl⟩
        exact ⟨h y, ys.map h, ⟨y, hy, rfl⟩, ⟨ys, hys, rfl⟩, rfl⟩

/-- **A sequence succeeds on a state exactly if its steps do**, one after another. -/
theorem run_run_bind_eq_ok_iff {σ : Type} {x : ExceptT ε (StateM σ) α}
    {f : α → ExceptT ε (StateM σ) β} {state state' : σ} {b : β} :
    (x >>= f).run.run state = (.ok b, state') ↔
      ∃ a next, x.run.run state = (.ok a, next) ∧ (f a).run.run next = (.ok b, state') := by
  change (ExceptT.bindCont f (x.run.run state).1).run (x.run.run state).2 = _ ↔ _
  rcases x.run.run state with ⟨_ | a, next⟩
  · constructor
    · rintro ⟨⟩
    · rintro ⟨_, _, ⟨⟩, _⟩
  · constructor
    · intro h
      exact ⟨a, next, rfl, h⟩
    · rintro ⟨_, _, ⟨⟩, h⟩
      exact h

/-- A success on a state leaves a state. -/
theorem exists_eq_ok {σ : Type} {outcome : Except ε Unit × σ} (h : outcome.1.isOk = true) :
    ∃ state, outcome = (.ok (), state) := by
  obtain ⟨_ | ⟨⟩, state⟩ := outcome
  · exact absurd h Bool.false_ne_true
  · exact ⟨state, rfl⟩

end AvroBindings
