import LineCalculator.Power
import Mathlib.Data.Int.ModEq

/-!
# The two powers modulo ten

For an exponent that is not negative the modular power is congruent to the power of integers, and an
exact power that is not refused is that power. So the two modes agree on the last digit wherever
both have a value, and the modular one has a value wherever the exact one has. The bases need to
agree only modulo ten; the exponents have to be equal.
-/

set_option autoImplicit false

namespace LineCalculator

theorem lastDigit_modEq (n : Int) : (lastDigit n : Int) ≡ n [ZMOD 10] := by
  have hnonneg : 0 ≤ n % 10 := Int.emod_nonneg n (by decide)
  rw [lastDigit, Int.toNat_of_nonneg hnonneg]
  exact Int.mod_modEq n 10

theorem powerDigit_modEq (d e : Nat) : (powerDigit d e : Int) ≡ (d : Int) ^ e [ZMOD 10] := by
  rw [powerDigit_eq, Int.natCast_emod]
  have hcast : ((d ^ e : Nat) : Int) = (d : Int) ^ e := by push_cast; rfl
  rw [hcast]
  exact Int.mod_modEq _ 10

/-- With an exponent that is not negative the modular power is a power modulo ten. -/
theorem modularPower_ofNat (b : Int) (e : Nat) :
    ∃ r, modularPower b (.ofNat e) = .ok r ∧ r ≡ b ^ e [ZMOD 10] :=
  ⟨_, rfl, (powerDigit_modEq (lastDigit b) e).trans ((lastDigit_modEq b).pow e)⟩

/-- An exact power that is not refused is the power of integers. -/
theorem exists_of_exactPower_eq_ok {b e v : Int} (h : exactPower b e = .ok v) :
    ∃ n : Nat, e = .ofNat n ∧ v = b ^ n := by
  unfold exactPower at h
  split at h
  · exact absurd h (by simp)
  · next n =>
    refine ⟨n, rfl, ?_⟩
    split at h
    · next hunit => exact (Except.ok.inj h).symm.trans (unitPower_eq hunit n)
    · split at h
      · exact absurd h (by simp)
      · split at h
        · exact absurd h (by simp)
        · exact (Except.ok.inj h).symm

/-- **Where an exact power has a value, the modular one has the last digit of it**, also from a base
    that agrees with the exact base only in the last digit. -/
theorem modularPower_of_exactPower {a b e v : Int} (hab : a ≡ b [ZMOD 10])
    (h : exactPower b e = .ok v) : ∃ w, modularPower a e = .ok w ∧ w ≡ v [ZMOD 10] := by
  obtain ⟨n, rfl, rfl⟩ := exists_of_exactPower_eq_ok h
  obtain ⟨w, hw, hmod⟩ := modularPower_ofNat a n
  exact ⟨w, hw, hmod.trans (hab.pow n)⟩

end LineCalculator
