import LineCalculator.Proofs.Power.Congruence
import Mathlib.Data.Nat.Size

/-!
# The width of exact powers

An exact power is refused before it is computed, by an estimate of its width: the width of the base,
times the exponent. The estimate is never too small, so no power that is answered is wider than the
limit. It is less than twice too large, because a base of `k + 1` digits in binary is at least
`2 ^ k`, so a power that is refused is wider than half the limit.

The three bases that do not grow never come to the estimate. An exponent that does not fit 32 bits
is refused before it, and would be refused by it: with a base that grows the estimate is above the
limit (`lt_size_mul_of_size_le`).
-/

set_option autoImplicit false

namespace LineCalculator

/-! ## Widths -/

theorem bitLength_eq_size (n : Nat) : bitLength n = n.size := by
  by_cases hn : n = 0
  · rw [hn]
    rfl
  · rw [bitLength, if_neg hn]
    refine eq_of_forall_ge_iff fun k => ?_
    rw [Nat.size_le, ← Nat.log2_lt hn]
    exact Nat.succ_le_iff

theorem size_pow_le {n e : Nat} (he : 0 < e) : (n ^ e).size ≤ n.size * e := by
  rw [Nat.size_le, Nat.pow_mul]
  exact Nat.pow_lt_pow_left (Nat.lt_size_self n) (Nat.ne_of_gt he)

theorem mul_lt_size_pow {n : Nat} (hn : 0 < n) (e : Nat) : (n.size - 1) * e < (n ^ e).size := by
  have hbase : 2 ^ (n.size - 1) ≤ n := by
    apply Nat.lt_size.1
    have := Nat.size_pos.2 hn
    omega
  rw [Nat.lt_size, Nat.pow_mul]
  exact Nat.pow_le_pow_left hbase e

theorem two_le_size {n : Nat} (hn : 2 ≤ n) : 2 ≤ n.size :=
  Nat.lt_size.2 hn

/-! ## The guard -/

variable {b : Int}

theorem exactPower_of_natAbs_le_one (h : b.natAbs ≤ 1) (n : Nat) :
    exactPower b n = .ok (b ^ n) := by
  show exactPower b (.ofNat n) = _
  rw [exactPower, if_pos h, unitPower_eq h]

theorem lt_size_mul_of_size_le (hb : 2 ≤ b.natAbs) {n : Nat} (hn : UInt32.size ≤ n) :
    2 ^ 20 < b.natAbs.size * n := by
  have hwidth : 2 * n ≤ b.natAbs.size * n := Nat.mul_le_mul_right n (two_le_size hb)
  have hsize : UInt32.size = 2 ^ 32 := rfl
  omega

/-- A base that grows is refused exactly by the estimate. -/
theorem exactPower_of_two_le (h : 2 ≤ b.natAbs) (n : Nat) :
    exactPower b n =
      if 2 ^ 20 < b.natAbs.size * n then .error (.exponentTooLarge n) else .ok (b ^ n) := by
  show exactPower b (.ofNat n) = _
  rw [exactPower, if_neg (by omega), bitLength_eq_size]
  by_cases hn : UInt32.size ≤ n
  · rw [if_pos hn, if_pos (lt_size_mul_of_size_le h hn)]
    rfl
  · rw [if_neg hn]
    rfl

theorem natAbs_pow_size_le {n : Nat} (h : b.natAbs.size * n ≤ 2 ^ 20) :
    (b ^ n).natAbs.size ≤ 2 ^ 20 := by
  rw [Int.natAbs_pow]
  rcases Nat.eq_zero_or_pos n with hn | hn
  · rw [hn, Nat.pow_zero, Nat.size_one]
    decide
  · exact (size_pow_le hn).trans h

theorem lt_natAbs_pow_size {n : Nat} (hb : 2 ≤ b.natAbs) (h : 2 ^ 20 < b.natAbs.size * n) :
    2 ^ 19 < (b ^ n).natAbs.size := by
  rw [Int.natAbs_pow]
  have hwidth := two_le_size hb
  have hlower := mul_lt_size_pow (show 0 < b.natAbs by omega) n
  -- At least half of the width of the base counts in full.
  have hhalf : b.natAbs.size * n ≤ 2 * ((b.natAbs.size - 1) * n) := by
    rw [← Nat.mul_assoc]
    apply Nat.mul_le_mul_right
    omega
  omega

/-- With a base that grows, a refusal is one by the estimate, and the other way round. -/
theorem exactPower_eq_error_iff (hb : 2 ≤ b.natAbs) {n : Nat} {f : Fault} :
    exactPower b n = .error f ↔ f = .exponentTooLarge n ∧ 2 ^ 20 < b.natAbs.size * n := by
  rw [exactPower_of_two_le hb]
  split
  · next h => simp only [h, and_true, Except.error.injEq, eq_comm]
  · next h => simp only [h, and_false, reduceCtorEq]

theorem large_exponent_iff (hb : 2 ≤ b.natAbs) (n : Nat) :
    ((2 : Int) ^ 32 ≤ n ∨ (2 : Int) ^ 20 < b.natAbs.size * n) ↔ 2 ^ 20 < b.natAbs.size * n := by
  have hlarge : 2 ^ 32 ≤ n → 2 ^ 20 < b.natAbs.size * n := lt_size_mul_of_size_le hb
  omega

theorem exactPower_cases (b : Int) (n : Nat) :
    exactPower b n = .ok (b ^ n) ∨ exactPower b n = .error (.exponentTooLarge n) := by
  by_cases hb : b.natAbs ≤ 1
  · exact Or.inl (exactPower_of_natAbs_le_one hb n)
  · rw [exactPower_of_two_le (by omega)]
    split
    · exact Or.inr rfl
    · exact Or.inl rfl

theorem exactPower_zero (b : Int) : exactPower b 0 = .ok 1 := by
  have hzero : b ^ 0 = 1 := Int.pow_zero b
  rw [← hzero]
  by_cases hb : b.natAbs ≤ 1
  · exact exactPower_of_natAbs_le_one hb 0
  · exact (exactPower_of_two_le (by omega) 0).trans (if_neg (Nat.not_lt_zero _))

theorem exactPower_eq_negativeExponent_iff {e x : Int} :
    exactPower b e = .error (.negativeExponent x) ↔ x = e ∧ e < 0 := by
  rcases lt_or_ge e 0 with he | he
  · obtain ⟨n, rfl⟩ := Int.eq_negSucc_of_lt_zero he
    simp [exactPower, Int.negSucc_lt_zero, eq_comm]
  · obtain ⟨n, rfl⟩ := Int.eq_ofNat_of_zero_le he
    have hnonneg : ¬ (n : Int) < 0 := Int.not_lt.2 he
    rcases exactPower_cases b n with h | h <;> simp [h, hnonneg]

/-- **An exact power is the power, and only a wide one is refused.** A negative exponent has no power,
    and for any other exponent the answer is never wrong. The bases 0, 1 and -1 are always answered.
    With any other base an answer has at most `2 ^ 20` binary digits; what is refused is an exponent
    that does not fit 32 bits or with which the estimate exceeds this limit, and every power that is
    refused has more than half as many. -/
theorem exactPower_width (b e : Int) :
    (∀ x, exactPower b e = .error (.negativeExponent x) ↔ x = e ∧ e < 0) ∧
    exactPower b 0 = .ok 1 ∧
    (0 ≤ e →
      (∀ v, exactPower b e = .ok v → v = b ^ e.toNat) ∧
      (b.natAbs ≤ 1 → exactPower b e = .ok (b ^ e.toNat)) ∧
      (2 ≤ b.natAbs →
        (∀ v, exactPower b e = .ok v → v.natAbs.size ≤ 2 ^ 20) ∧
        (∀ f, exactPower b e = .error f ↔
          f = .exponentTooLarge e ∧ (2 ^ 32 ≤ e ∨ 2 ^ 20 < b.natAbs.size * e)) ∧
        (∀ f, exactPower b e = .error f → 2 ^ 19 < (b ^ e.toNat).natAbs.size))) := by
  refine ⟨fun x => exactPower_eq_negativeExponent_iff, exactPower_zero b, ?_⟩
  intro he
  obtain ⟨n, rfl⟩ := Int.eq_ofNat_of_zero_le he
  have hright : ∀ v, exactPower b n = .ok v → v = b ^ n := by
    intro v hv
    rcases exactPower_cases b n with h | h
    · exact Except.ok.inj (hv.symm.trans h)
    · exact absurd (hv.symm.trans h) (by simp)
  refine ⟨hright, fun hb => exactPower_of_natAbs_le_one hb n, ?_⟩
  intro hb
  refine ⟨?_, ?_, ?_⟩
  · intro v hv
    have hnarrow : b.natAbs.size * n ≤ 2 ^ 20 := by
      apply Nat.le_of_not_lt
      intro hwide
      have hrefused := (exactPower_eq_error_iff hb).2 ⟨rfl, hwide⟩
      exact absurd (hv.symm.trans hrefused) (by simp)
    rw [hright v hv]
    exact natAbs_pow_size_le hnarrow
  · intro f
    rw [large_exponent_iff hb]
    exact exactPower_eq_error_iff hb
  · intro f hf
    exact lt_natAbs_pow_size hb ((exactPower_eq_error_iff hb).1 hf).2

end LineCalculator
