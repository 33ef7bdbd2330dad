import AvroBindings.Proofs.Convert.Calls

/-!
# Conversions that end alike

Two conversions end alike if both refuse their data or both take it, and as related values;
which faults they refuse it with does not matter.

## Main Definitions

* `Conversion.Alike` — two results are faults, or related values.
* `Conversion.Follows` — where one conversion ends, another ends alike.
* `Conversion.Compatible` — where two conversions both end, they end alike.

## Main Statements

* `Follows.bind`, `Compatible.bind` — conversions in sequence.
* `Follows.adapt`, `Compatible.adapt` — conversions in a field.
* `first?_compatible` — searches through one list for the first success.

## Design Notes

**Two relations.**  `Follows` promises an end and needs one; it carries over from parts that are
run to parts that are run.  `Compatible` promises nothing where one of the two goes on for ever.
It is what remains when one run stops at a fault before it comes to a part that the other run
never leaves.
-/

namespace AvroBindings.Conversion

variable {α β γ δ : Type} {R : α → β → Prop} {S : γ → δ → Prop} {x : Conversion α}
  {y : Conversion β}

/-- **Two results are alike**: both are faults, or both are values and these are related. -/
inductive Alike (R : α → β → Prop) : Except ConversionError α → Except ConversionError β → Prop
  | refused (e e' : ConversionError) : Alike R (.error e) (.error e')
  | taken {a : α} {b : β} (h : R a b) : Alike R (.ok a) (.ok b)

/-- A result is alike to itself. -/
theorem Alike.refl (r : Except ConversionError α) : Alike Eq r r := by
  cases r with
  | error e => exact .refused e e
  | ok a => exact .taken rfl

theorem Alike.mapError {r : Except ConversionError α} {r' : Except ConversionError β}
    (f f' : ConversionError → ConversionError) (h : Alike R r r') :
    Alike R (r.mapError f) (r'.mapError f') := by
  cases h with
  | refused e e' => exact .refused (f e) (f' e')
  | taken h => exact .taken h

/-! ## Following -/

/-- **Where the first conversion ends, the second ends alike.** -/
def Follows (R : α → β → Prop) (x : Conversion α) (y : Conversion β) : Prop :=
  ∀ r, x.run = some r → ∃ r', y.run = some r' ∧ Alike R r r'

theorem Follows.return {a : α} {b : β} (h : R a b) : Follows R (pure a) (pure b) := by
  intro r hr
  obtain rfl := Option.some.inj hr
  exact ⟨.ok b, rfl, .taken h⟩

theorem Follows.refusal (e e' : ConversionError) : Follows R (throw e) (throw e') := by
  intro r hr
  obtain rfl := Option.some.inj hr
  exact ⟨.error e', rfl, .refused e e'⟩

/-- The conversion that has run out of fuel is followed by every other. -/
theorem Follows.unfinished : Follows R Conversion.unfinished y := by
  intro r hr
  simp at hr

theorem Follows.bind {f : α → Conversion γ} {g : β → Conversion δ} (hxy : Follows R x y)
    (hfg : ∀ a b, R a b → Follows S (f a) (g b)) : Follows S (x >>= f) (y >>= g) := by
  intro r hr
  rw [ExceptT.run_bind] at hr ⊢
  cases hx : x.run with
  | none => simp [hx] at hr
  | some s =>
      obtain ⟨s', hs', halike⟩ := hxy s hx
      rw [hx] at hr
      rw [hs']
      cases halike with
      | refused e e' =>
          obtain rfl : .error e = r := Option.some.inj hr
          exact ⟨.error e', rfl, .refused e e'⟩
      | taken h => exact hfg _ _ h r hr

theorem Follows.adapt (f f' : ConversionError → ConversionError) (h : Follows R x y) :
    Follows R (ExceptT.adapt f x) (ExceptT.adapt f' y) := by
  intro r hr
  rw [run_adapt] at hr
  obtain ⟨s, hs, rfl⟩ := Option.map_eq_some_iff.1 hr
  obtain ⟨s', hs', halike⟩ := h s hs
  exact ⟨s'.mapError f', by rw [run_adapt, hs', Option.map_some], halike.mapError f f'⟩

/-- A value of a conversion that is followed is related to one of the other. -/
theorem Follows.taken {a : α} (h : Follows R x y) (hx : x.run = some (.ok a)) :
    ∃ b, y.run = some (.ok b) ∧ R a b := by
  obtain ⟨r', hr', halike⟩ := h _ hx
  cases halike with
  | taken hab => exact ⟨_, hr', hab⟩

theorem Follows.refused {e : ConversionError} (h : Follows R x y)
    (hx : x.run = some (.error e)) :
    ∃ e', y.run = some (.error e') := by
  obtain ⟨r', hr', halike⟩ := h _ hx
  cases halike with
  | refused _ e' => exact ⟨e', hr'⟩

/-! ## Compatibility -/

/-- **Where both conversions end, they end alike.** -/
def Compatible (R : α → β → Prop) (x : Conversion α) (y : Conversion β) : Prop :=
  ∀ r r', x.run = some r → y.run = some r' → Alike R r r'

theorem Compatible.return {a : α} {b : β} (h : R a b) : Compatible R (pure a) (pure b) := by
  intro r r' hr hr'
  obtain rfl := Option.some.inj hr
  obtain rfl := Option.some.inj hr'
  exact .taken h

theorem Compatible.refusal (e e' : ConversionError) : Compatible R (throw e) (throw e') := by
  intro r r' hr hr'
  obtain rfl := Option.some.inj hr
  obtain rfl := Option.some.inj hr'
  exact .refused e e'

theorem Compatible.lift {r : Except ConversionError α} {r' : Except ConversionError β}
    (h : Alike R r r') :
    Compatible R (liftM r) (liftM r') := by
  intro s s' hs hs'
  obtain rfl := Option.some.inj hs
  obtain rfl := Option.some.inj hs'
  exact h

theorem Compatible.unfinished : Compatible R Conversion.unfinished y := by
  intro r r' hr
  simp at hr

theorem Compatible.bind {f : α → Conversion γ} {g : β → Conversion δ} (hxy : Compatible R x y)
    (hfg : ∀ a b, R a b → Compatible S (f a) (g b)) : Compatible S (x >>= f) (y >>= g) := by
  intro r r' hr hr'
  rw [ExceptT.run_bind] at hr hr'
  cases hx : x.run with
  | none => simp [hx] at hr
  | some s =>
      cases hy : y.run with
      | none => simp [hy] at hr'
      | some s' =>
          rw [hx] at hr
          rw [hy] at hr'
          cases hxy s s' hx hy with
          | refused e e' =>
              obtain rfl : .error e = r := Option.some.inj hr
              obtain rfl : .error e' = r' := Option.some.inj hr'
              exact .refused e e'
          | taken h => exact hfg _ _ h r r' hr hr'

theorem Compatible.adapt (f f' : ConversionError → ConversionError) (h : Compatible R x y) :
    Compatible R (ExceptT.adapt f x) (ExceptT.adapt f' y) := by
  intro r r' hr hr'
  rw [run_adapt] at hr hr'
  obtain ⟨s, hs, rfl⟩ := Option.map_eq_some_iff.1 hr
  obtain ⟨s', hs', rfl⟩ := Option.map_eq_some_iff.1 hr'
  exact (h s s' hs hs').mapError f f'

/-- **Searches through one list find the same**: both find nothing, or both find a value for the
same item. -/
theorem first?_compatible {f : γ → Conversion α} {g : γ → Conversion β} {l : List γ}
    {found : Option α} {found' : Option β} (h : ∀ x ∈ l, Compatible R (f x) (g x))
    (hf : first? f l = some found) (hg : first? g l = some found') :
    Option.Rel R found found' := by
  induction l with
  | nil =>
      obtain rfl := Option.some.inj hf
      obtain rfl := Option.some.inj hg
      exact .none
  | cons x rest ih =>
      rw [List.forall_mem_cons] at h
      unfold first? at hf hg
      cases hfx : (f x).run with
      | none => simp [hfx] at hf
      | some r =>
          cases hgx : (g x).run with
          | none => simp [hgx] at hg
          | some r' =>
              rw [hfx] at hf
              rw [hgx] at hg
              cases h.1 r r' hfx hgx with
              | refused e e' => exact ih h.2 hf hg
              | taken hab =>
                  obtain rfl := Option.some.inj hf
                  obtain rfl := Option.some.inj hg
                  exact .some hab

end AvroBindings.Conversion
