import Mathlib.Algebra.Group.Nat.Defs
import AvroBindings.Number.Binary64

/-!
# Rounding of integers

Integers of sixty-four bits are far below the largest binary64 number, so rounding them never
gives an infinity.

## Main Statements

* `Binary64.isFinite_ofInt` — an integer of at most sixty-four bits is rounded to a finite
  number.
-/

namespace AvroBindings.Binary64

/-- A quotient is rounded up by at most one. -/
theorem roundQuotient_le (num den : Nat) : roundQuotient num den ≤ num / den + 1 := by
  unfold roundQuotient
  dsimp only
  split <;> omega

/-- A number whose bits, the sign aside, stay below those of an infinity is finite. -/
theorem isFinite_ofSign {negative : Bool} {unsigned : Nat} (h : unsigned < infinityBits) :
    (ofSign negative unsigned).isFinite = true := by
  rw [infinityBits, Nat.pow_eq] at h
  have hbits : (ofSign negative unsigned).bits.toNat = unsigned + if negative then 2 ^ 63
      else 0 := by
    unfold ofSign
    rw [UInt64.toNat_ofNat']
    refine Nat.mod_eq_of_lt ?_
    cases negative <;> simp <;> omega
  have hfield : (ofSign negative unsigned).exponentField ≠ 2047 := by
    unfold exponentField
    rw [hbits]
    cases negative <;> simp <;> omega
  simpa [isFinite] using hfield

/-- Scaled down to at most fifty-three bits, a number loses all but those. -/
theorem div_two_pow_lt (steps : Nat) : steps / 2 ^ (Nat.log2 steps - 52) < 2 ^ 53 := by
  have hlog : steps < 2 ^ (Nat.log2 steps + 1) := Nat.lt_log2_self
  rw [Nat.div_lt_iff_lt_mul (Nat.two_pow_pos _), ← Nat.pow_add]
  exact Nat.lt_of_lt_of_le hlog (Nat.pow_le_pow_right (by omega) (by omega))

theorem log2_stepsPerUnit : Nat.log2 stepsPerUnit = 1074 := by
  decide +kernel

/-- Multiplied by a number of at most sixty-four bits, a number gets at most sixty-four bits
longer. -/
theorem log2_mul_le {n m : Nat} (h : n ≤ 2 ^ 64) (hm : m ≠ 0) :
    Nat.log2 (n * m) ≤ 64 + Nat.log2 m := by
  rcases Nat.eq_zero_or_pos n with rfl | hpos
  · rw [Nat.zero_mul]
    exact Nat.zero_le _
  · have hlog : m < 2 ^ (Nat.log2 m + 1) := Nat.lt_log2_self
    have hlt : n * m < 2 ^ (64 + Nat.log2 m + 1) :=
      calc n * m
          ≤ 2 ^ 64 * m := Nat.mul_le_mul_right _ h
        _ < 2 ^ 64 * 2 ^ (Nat.log2 m + 1) := Nat.mul_lt_mul_of_pos_left hlog (Nat.two_pow_pos _)
        _ = 2 ^ (64 + Nat.log2 m + 1) := (Nat.pow_add 2 64 _).symm
    have hne : n * m ≠ 0 := Nat.mul_ne_zero (Nat.ne_of_gt hpos) hm
    exact Nat.le_of_lt_succ ((Nat.log2_lt hne).2 hlt)

/-- **An integer of at most sixty-four bits is rounded to a finite number.** -/
theorem isFinite_ofInt {n : Int} (h : n.natAbs ≤ 2 ^ 64) : (ofInt n).isFinite = true := by
  have hlog : Nat.log2 (n.natAbs * stepsPerUnit) ≤ 64 + 1074 :=
    log2_stepsPerUnit ▸ log2_mul_le h (by decide +kernel)
  unfold ofInt nearest
  simp only [Nat.div_one, Nat.one_mul, Nat.pow_eq]
  generalize n.natAbs * stepsPerUnit = steps at hlog
  have hround := roundQuotient_le steps (2 ^ (Nat.log2 steps - 52))
  have hquotient := div_two_pow_lt steps
  refine isFinite_ofSign ?_
  rw [infinityBits, Nat.pow_eq]
  omega

end AvroBindings.Binary64
