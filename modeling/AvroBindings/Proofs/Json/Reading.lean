import AvroBindings.Proofs.Json.Text
import AvroBindings.Proofs.Results

/-!
# Trees that are read are well formed

Whatever the text, the tree it is read as has finite numbers, integers of at most sixty-four
bits, and no object that states a member twice.

## Main Statements

* `Json.wellFormed_of_numberTail` — a number that is read is well formed.
* `Json.foldItems_keeps`, `Json.foldMembers_keeps` — what every step keeps holds after an array
  or an object.
* `Json.wellFormed_of_parse` — the tree of a text is well formed.

## Design Notes

Before `Json.collapse` a tree may state a member twice.  So the statement about `Json.value` is
about the tree collapsed, and this holds of a tree exactly if it holds of its parts.
-/

namespace AvroBindings

/-- A finite number is finite with the other sign. -/
theorem Binary64.isFinite_neg {x : Binary64} (h : x.isFinite = true) :
    x.neg.isFinite = true := by
  rw [isFinite, bne_iff_ne, exponentField] at h
  refine isFinite_ofSign ?_
  simp only [infinityBits, Nat.pow_eq] at h ⊢
  omega

namespace Json

/-! ## Numbers -/

section Numbers

variable {negative : Bool} {word : Nat} {shift : Int} {text rest : List Char} {n : JsonNumber}

/-- Gathered digits fit a word. -/
theorem gather_le (h : word ≤ wordMax) (taken : Nat) (text : List Char) :
    (gather word taken text).1 ≤ wordMax := by
  induction text generalizing word taken with
  | nil => exact h
  | cons c text ih =>
      rw [gather]
      split
      next hlonger =>
        rw [Bool.and_eq_true, decide_eq_true_iff] at hlonger
        exact ih hlonger.2 _
      next => exact h

/-- A float that is not refused is finite. -/
theorem wellFormed_of_floatOf (h : floatOf negative word shift = .ok n) :
    n.wellFormed = true := by
  unfold floatOf at h
  extract_lets x scaled at h
  split at h
  next hfinite =>
    obtain rfl := Except.ok.inj h
    rw [JsonNumber.wellFormed]
    split
    · exact Binary64.isFinite_neg hfinite
    · exact hfinite
  next => contradiction

/-- An integer that fits a word stays one, or becomes a finite float. -/
theorem wellFormed_integerOf (negative : Bool) (h : word ≤ wordMax) :
    (integerOf negative word).wellFormed = true := by
  have hmax : wordMax = 0xFFFFFFFFFFFFFFFF := by decide
  have hlimit : Nat.pow 2 63 = 0x8000000000000000 := by decide
  unfold integerOf
  split
  · simp only [JsonNumber.wellFormed, Bool.and_eq_true, decide_eq_true_iff]
    omega
  · split
    · refine Binary64.isFinite_neg ?_
      exact Binary64.isFinite_ofInt (n := word) (by omega)
    next hfits =>
      simp only [Bool.or_eq_true, decide_eq_true_iff, not_or] at hfits
      simp only [JsonNumber.wellFormed, Bool.and_eq_true, decide_eq_true_iff]
      omega

theorem wellFormed_of_exponentDigits {down : Bool}
    (h : exponentDigits negative word shift down text = .ok (n, rest)) :
    n.wellFormed = true := by
  unfold exponentDigits at h
  split at h
  next => contradiction
  next =>
    split at h
    next => contradiction
    next => exact wellFormed_of_floatOf (bind_pair_eq_ok_iff.1 h).1

theorem wellFormed_of_exponentTail (h : exponentTail negative word shift text = .ok (n, rest)) :
    n.wellFormed = true := by
  rw [exponentTail_eq] at h
  split at h
  · exact wellFormed_of_exponentDigits h
  · exact wellFormed_of_exponentDigits h
  · exact wellFormed_of_exponentDigits h

theorem wellFormed_of_fractionTail (h : fractionTail negative word shift text = .ok (n, rest)) :
    n.wellFormed = true := by
  unfold fractionTail at h
  dsimp only at h
  split at h
  next => contradiction
  next =>
    split at h
    next => contradiction
    next =>
      split at h
      · exact wellFormed_of_exponentTail h
      · exact wellFormed_of_exponentTail h
      · exact wellFormed_of_floatOf (bind_pair_eq_ok_iff.1 h).1

theorem wellFormed_of_afterInteger (hword : word ≤ wordMax)
    (h : afterInteger negative word shift text = .ok (n, rest)) : n.wellFormed = true := by
  unfold afterInteger at h
  split at h
  · exact wellFormed_of_fractionTail h
  · exact wellFormed_of_exponentTail h
  · exact wellFormed_of_exponentTail h
  · split at h
    · obtain ⟨rfl, -⟩ := Prod.mk.inj (Except.ok.inj h)
      exact wellFormed_integerOf negative hword
    · exact wellFormed_of_floatOf (bind_pair_eq_ok_iff.1 h).1

/-- **A number that is read is well formed.** -/
theorem wellFormed_of_numberTail (h : numberTail negative text = .ok (n, rest)) :
    n.wellFormed = true := by
  cases text with
  | nil => simp [numberTail] at h
  | cons c text =>
      by_cases hzero : c = '0'
      · subst hzero
        have hhead : ∀ c ∈ text.head?, c.isDigit = false := by
          intro c hc
          obtain ⟨text', rfl⟩ := List.head?_eq_some_iff.1 hc
          refine Bool.eq_false_iff.2 fun hdigit => ?_
          rw [numberTail_zero_digit hdigit] at h
          contradiction
        rw [numberTail_zero hhead] at h
        exact wellFormed_of_afterInteger (Nat.zero_le _) h
      · cases hdigit : c.isDigit with
        | false => simp [numberTail, hdigit] at h
        | true =>
            rw [numberTail_digit hdigit hzero] at h
            exact wellFormed_of_afterInteger (gather_le (Nat.zero_le _) _ _) h

end Numbers

/-! ## Arrays and objects -/

section Parts

variable {σ : Type} {motive : σ → Prop}

/-- What every step keeps holds after the items of an array. -/
theorem foldItems_keeps {step : σ → Reader σ}
    (hstep : ∀ state text state' rest, motive state → step state text = .ok (state', rest) →
      motive state')
    {fuel : Nat} {first : Bool} {state state' : σ} {text rest : List Char}
    (hstate : motive state) (h : foldItems step fuel first state text = .ok (state', rest)) :
    motive state' := by
  induction fuel generalizing first state text with
  | zero => contradiction
  | succ fuel ih =>
      rw [foldItems] at h
      split at h
      next => contradiction
      next =>
        obtain ⟨rfl, -⟩ := Prod.mk.inj (Except.ok.inj h)
        exact hstate
      next =>
        have hgo : ∀ start,
            (step state start >>= fun read => foldItems step fuel false read.1 read.2) =
            .ok (state', rest) → motive state' := by
          intro start h
          obtain ⟨⟨next, text'⟩, hnext, h⟩ := bind_eq_ok_iff.1 h
          exact ih (hstep _ _ _ _ hstate hnext) h
        split at h
        · exact hgo _ h
        · split at h
          · split at h
            · contradiction
            · contradiction
            · exact hgo _ h
          · contradiction

/-- What every step keeps holds after the members of an object. -/
theorem foldMembers_keeps {step : σ → String → Reader σ}
    (hstep : ∀ state key text state' rest, motive state →
      step state key text = .ok (state', rest) → motive state')
    {fuel : Nat} {first : Bool} {state state' : σ} {text rest : List Char}
    (hstate : motive state) (h : foldMembers step fuel first state text = .ok (state', rest)) :
    motive state' := by
  induction fuel generalizing first state text with
  | zero => contradiction
  | succ fuel ih =>
      rw [foldMembers] at h
      split at h
      next => contradiction
      next =>
        obtain ⟨rfl, -⟩ := Prod.mk.inj (Except.ok.inj h)
        exact hstate
      next =>
        have hgo : ∀ start, (memberKey start >>= fun key =>
            step state key.1 key.2 >>= fun read => foldMembers step fuel false read.1 read.2) =
              .ok (state', rest) → motive state' := by
          intro start h
          obtain ⟨⟨key, text'⟩, -, h⟩ := bind_eq_ok_iff.1 h
          obtain ⟨⟨next, text''⟩, hnext, h⟩ := bind_eq_ok_iff.1 h
          exact ih (hstep _ _ _ _ _ hstate hnext) h
        split at h
        · exact hgo _ h
        · split at h
          · split at h
            · contradiction
            · exact hgo _ h
          · contradiction

end Parts

/-! ## Trees -/

/-- An array is well formed once repeated members are dropped if its items are. -/
theorem wellFormed_collapse_array {items : List Json}
    (h : ∀ x ∈ items, x.collapse.wellFormed = true) :
    (Json.array items).collapse.wellFormed = true := by
  rw [collapse, collapseItems_eq_map, wellFormed_array_iff, List.forall_mem_map]
  exact h

/-- An object is well formed once repeated members are dropped if the values of its members
are. -/
theorem wellFormed_collapse_object {members : List (String × Json)}
    (h : ∀ member ∈ members, member.2.collapse.wellFormed = true) :
    (Json.object members).collapse.wellFormed = true := by
  rw [collapse, collapseMembers_eq_map, wellFormed_object_iff]
  refine ⟨Entries.keys_nodup_ofPairs _, fun member hmember => ?_⟩
  obtain ⟨original, horiginal, rfl⟩ := List.mem_map.1 (Entries.mem_of_mem_ofPairs hmember)
  exact h original horiginal

/-- A value that is read is well formed once repeated members are dropped. -/
theorem wellFormed_of_value {fuel room : Nat} {text rest : List Char} {json : Json}
    (h : value fuel room text = .ok (json, rest)) : json.collapse.wellFormed = true := by
  induction fuel generalizing room text rest json with
  | zero => contradiction
  | succ fuel ih =>
      have hnumber : ∀ {negative : Bool} {text : List Char},
          (numberTail negative text >>= fun read => .ok (Json.number read.1, read.2)) =
            .ok (json, rest) →
            json.collapse.wellFormed = true := by
        intro negative text h
        obtain ⟨⟨n, text'⟩, hn, h⟩ := bind_eq_ok_iff.1 h
        obtain ⟨rfl, -⟩ := Prod.mk.inj (Except.ok.inj h)
        exact wellFormed_of_numberTail hn
      rw [value] at h
      split at h
      next => contradiction
      next =>
        obtain rfl := keyword_eq_ok h
        rfl
      next =>
        obtain rfl := keyword_eq_ok h
        rfl
      next =>
        obtain rfl := keyword_eq_ok h
        rfl
      next =>
        obtain ⟨⟨s, text'⟩, -, h⟩ := bind_eq_ok_iff.1 h
        obtain ⟨rfl, -⟩ := Prod.mk.inj (Except.ok.inj h)
        rfl
      next =>
        split at h
        next => contradiction
        next =>
          obtain ⟨⟨items, text'⟩, hitems, h⟩ := bind_eq_ok_iff.1 h
          obtain ⟨rfl, -⟩ := Prod.mk.inj (Except.ok.inj h)
          have hread :=
            foldItems_keeps (motive := fun items => ∀ x ∈ items, x.collapse.wellFormed = true)
              (fun items text items' rest hitems hpush => ?_) (by simp) hitems
          · refine wellFormed_collapse_array fun x hx => hread x (List.mem_reverse.1 hx)
          · obtain ⟨⟨x, text'⟩, hx, hpush⟩ := bind_eq_ok_iff.1 hpush
            obtain ⟨rfl, -⟩ := Prod.mk.inj (Except.ok.inj hpush)
            exact List.forall_mem_cons.2 ⟨ih hx, hitems⟩
      next =>
        split at h
        next => contradiction
        next =>
          obtain ⟨⟨members, text'⟩, hmembers, h⟩ := bind_eq_ok_iff.1 h
          obtain ⟨rfl, -⟩ := Prod.mk.inj (Except.ok.inj h)
          have hread := foldMembers_keeps
            (motive := fun members => ∀ member ∈ members, member.2.collapse.wellFormed = true)
            (fun members key text members' rest hmembers hpush => ?_) (by simp) hmembers
          · exact wellFormed_collapse_object fun member hmember =>
              hread member (List.mem_reverse.1 hmember)
          · obtain ⟨text', -, hpush⟩ := bind_eq_ok_iff.1 hpush
            obtain ⟨⟨x, text''⟩, hx, hpush⟩ := bind_eq_ok_iff.1 hpush
            obtain ⟨rfl, -⟩ := Prod.mk.inj (Except.ok.inj hpush)
            exact List.forall_mem_cons.2 ⟨ih hx, hmembers⟩
      next => exact hnumber h
      next =>
        split at h
        next => exact hnumber h
        next => contradiction

/-- **The tree of a text is well formed.** -/
theorem wellFormed_of_parse {text : String} {json : Json} (h : parse text = .ok json) :
    json.wellFormed = true := by
  unfold parse at h
  cases hread : read text with
  | error fault =>
      rw [hread] at h
      contradiction
  | ok tree =>
      rw [hread] at h
      obtain rfl : tree.collapse = json := Except.ok.inj h
      obtain ⟨⟨tree', rest⟩, hvalue, hfinish⟩ := bind_eq_ok_iff.1 hread
      rw [finish] at hfinish
      split at hfinish
      next =>
        obtain rfl := Except.ok.inj hfinish
        exact wellFormed_of_value hvalue
      next => contradiction

end Json

end AvroBindings
