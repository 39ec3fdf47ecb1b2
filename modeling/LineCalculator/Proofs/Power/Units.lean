import LineCalculator.Proofs.Power.Congruence
import Mathlib.Data.ZMod.Units

/-!
# Powers of units

A negative exponent asks for an inverse modulo ten, and only the bases coprime to ten have one: they
are the units among the residues. The search for it goes through the digits, and it ends with a
digit exactly for these bases.

For a unit the modular power is the power in the group of units, whatever the sign of the exponent
(`modularPower_eq_zpow`). So what is known of the powers in a group need not be shown again for
digits: that exponents add up, and that opposite ones cancel, are two of its laws.
-/

set_option autoImplicit false

namespace LineCalculator

variable {b : Int}

/-! ## Digits as residues -/

theorem powerDigit_lt (d e : Nat) : powerDigit d e < 10 := by
  rw [powerDigit_eq]
  exact Nat.mod_lt _ (by decide)

theorem natCast_lastDigit (b : Int) : (lastDigit b : ZMod 10) = b := by
  have hmod := (ZMod.intCast_eq_intCast_iff _ _ 10).2 (lastDigit_modEq b)
  rwa [Int.cast_natCast] at hmod

theorem natCast_powerDigit (d e : Nat) : (powerDigit d e : ZMod 10) = (d : ZMod 10) ^ e := by
  rw [powerDigit_eq, ZMod.natCast_mod, Nat.cast_pow]

theorem isUnit_intCast_iff : IsUnit (b : ZMod 10) ↔ b.gcd 10 = 1 := by
  rw [ZMod.coe_int_isUnit_iff_isCoprime, isCoprime_comm, Int.isCoprime_iff_gcd_eq_one]
  rfl

/-! ## The search for an inverse -/

theorem mul_inverseDigit {d c : Nat} (h : inverseDigit? d = some c) : (d : ZMod 10) * c = 1 := by
  have hmod : d * c % 10 = 1 := by simpa using List.find?_some h
  have hcast := (ZMod.natCast_eq_natCast_iff (d * c) 1 10).2 hmod
  rwa [Nat.cast_mul, Nat.cast_one] at hcast

/-- Every unit has an inverse among the digits. -/
theorem exists_inverseDigit {d : Nat} (h : IsUnit (d : ZMod 10)) :
    ∃ c, inverseDigit? d = some c := by
  obtain ⟨c, hc, hone⟩ :=
    Nat.exists_mul_mod_eq_one_of_coprime ((ZMod.isUnit_iff_coprime d 10).1 h) (by decide)
  refine Option.isSome_iff_exists.1 (List.find?_isSome.2 ⟨c, List.mem_range.2 hc, ?_⟩)
  simpa using hone

/-! ## Powers -/

/-- **The modular power of a unit is its power in the group of units.** -/
theorem modularPower_eq_zpow {u : (ZMod 10)ˣ} (hu : (u : ZMod 10) = b) (e : Int) :
    ∃ d : Nat, modularPower b e = .ok d ∧ d < 10 ∧ (d : ZMod 10) = ↑(u ^ e) := by
  cases e with
  | ofNat n =>
    refine ⟨_, rfl, powerDigit_lt _ n, ?_⟩
    rw [natCast_powerDigit, natCast_lastDigit, ← hu, Int.ofNat_eq_natCast, zpow_natCast,
      Units.val_pow_eq_pow_val]
  | negSucc n =>
    have hunit : IsUnit (lastDigit b : ZMod 10) := by
      rw [natCast_lastDigit, ← hu]
      exact u.isUnit
    obtain ⟨c, hc⟩ := exists_inverseDigit hunit
    have hinv : (c : ZMod 10) = ↑u⁻¹ := by
      have hone := mul_inverseDigit hc
      rw [natCast_lastDigit, ← hu] at hone
      exact Units.eq_inv_of_mul_eq_one_left hone
    refine ⟨powerDigit c (n + 1), ?_, powerDigit_lt c _, ?_⟩
    · rw [modularPower, hc]
    · rw [natCast_powerDigit, hinv, zpow_negSucc, ← inv_pow, Units.val_pow_eq_pow_val]

theorem modularPower_of_not_isUnit (h : ¬ IsUnit (b : ZMod 10)) (n : Nat) :
    modularPower b (.negSucc n) = .error (.notInvertible b) := by
  rw [modularPower]
  cases hc : inverseDigit? (lastDigit b) with
  | none => rfl
  | some c =>
    have hone := mul_inverseDigit hc
    rw [natCast_lastDigit] at hone
    exact absurd (IsUnit.of_mul_eq_one _ hone) h

theorem exists_modularPower_of_nonneg (b : Int) {e : Int} (he : 0 ≤ e) :
    ∃ r, modularPower b e = .ok r ∧ 0 ≤ r ∧ r < 10 ∧ r ≡ b ^ e.toNat [ZMOD 10] := by
  obtain ⟨n, rfl⟩ := Int.eq_ofNat_of_zero_le he
  obtain ⟨r, hr, hmod⟩ := modularPower_ofNat b n
  have hdigit : (powerDigit (lastDigit b) n : Int) = r := Except.ok.inj hr
  have hlt := powerDigit_lt (lastDigit b) n
  exact ⟨r, hr, by omega, by omega, hmod⟩

/-- A negative power of a unit undoes the positive one. -/
theorem exists_modularPower_of_neg (h : b.gcd 10 = 1) {e : Int} (he : e < 0) :
    ∃ r, modularPower b e = .ok r ∧ 0 ≤ r ∧ r < 10 ∧ r * b ^ (-e).toNat ≡ 1 [ZMOD 10] := by
  obtain ⟨u, hu⟩ := isUnit_intCast_iff.2 h
  obtain ⟨d, hd, hlt, hpow⟩ := modularPower_eq_zpow hu e
  refine ⟨d, hd, by omega, by omega, (ZMod.intCast_eq_intCast_iff _ _ 10).1 ?_⟩
  have hcancel : u ^ e * u ^ (-e).toNat = 1 := by
    rw [← zpow_natCast, Int.toNat_of_nonneg (by omega), ← zpow_add, Int.add_right_neg, zpow_zero]
  rw [Int.cast_mul, Int.cast_natCast, Int.cast_pow, Int.cast_one, hpow, ← hu,
    ← Units.val_pow_eq_pow_val, ← Units.val_mul, hcancel, Units.val_one]

/-- Exponents of a unit add up. -/
theorem modularPower_add (h : b.gcd 10 = 1) (m n : Int) :
    ∃ r s t, modularPower b m = .ok r ∧ modularPower b n = .ok s ∧ modularPower b (m + n) = .ok t ∧
      t ≡ r * s [ZMOD 10] := by
  obtain ⟨u, hu⟩ := isUnit_intCast_iff.2 h
  obtain ⟨r, hr, -, hrpow⟩ := modularPower_eq_zpow hu m
  obtain ⟨s, hs, -, hspow⟩ := modularPower_eq_zpow hu n
  obtain ⟨t, ht, -, htpow⟩ := modularPower_eq_zpow hu (m + n)
  refine ⟨r, s, t, hr, hs, ht, (ZMod.intCast_eq_intCast_iff _ _ 10).1 ?_⟩
  rw [Int.cast_mul, Int.cast_natCast, Int.cast_natCast, Int.cast_natCast, hrpow, hspow, htpow,
    zpow_add, Units.val_mul]

/-- **The modular power is exponentiation modulo ten.** With an exponent that is not negative it is
    the digit congruent to the power, and with a negative one the digit that the opposite power turns
    into one. A base that shares a factor with ten, and no other, has no negative powers; the fault
    names it in decimal. Exponents of a base that is coprime to ten add up, whatever their signs. -/
theorem modularPower_exponentiates (b : Int) :
    (∀ e : Int, 0 ≤ e →
      ∃ r, modularPower b e = .ok r ∧ 0 ≤ r ∧ r < 10 ∧ r ≡ b ^ e.toNat [ZMOD 10]) ∧
    modularPower b 0 = .ok 1 ∧
    (∀ e : Int, e < 0 →
      (modularPower b e = .error (.notInvertible b) ↔ b.gcd 10 ≠ 1) ∧
      (b.gcd 10 = 1 → ∃ r, modularPower b e = .ok r ∧ 0 ≤ r ∧ r < 10 ∧
        r * b ^ (-e).toNat ≡ 1 [ZMOD 10])) ∧
    (Fault.notInvertible b).explanation =
      '\x60' :: Decimal.ofInt b ++ "\x60 has no inverse modulo 10".toList ∧
    (b.gcd 10 = 1 → ∀ m n : Int, ∃ r s t, modularPower b m = .ok r ∧ modularPower b n = .ok s ∧
      modularPower b (m + n) = .ok t ∧ t ≡ r * s [ZMOD 10]) := by
  refine ⟨fun e he => exists_modularPower_of_nonneg b he, rfl, ?_, ?_, modularPower_add⟩
  · intro e he
    refine ⟨?_, fun hunit => exists_modularPower_of_neg hunit he⟩
    constructor
    · intro hfault hunit
      obtain ⟨r, hr, -⟩ := exists_modularPower_of_neg hunit he
      exact absurd (hr.symm.trans hfault) (by simp)
    · intro hgcd
      obtain ⟨n, rfl⟩ := Int.eq_negSucc_of_lt_zero he
      apply modularPower_of_not_isUnit
      rwa [isUnit_intCast_iff]
  · exact List.append_assoc _ _ _

/-- The residue of -3 is 7, and 7 * 3 = 21. -/
example : modularPower (-3) (-1) = .ok 3 := rfl

end LineCalculator
