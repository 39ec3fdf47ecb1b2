import LineCalculator.LineError

/-!
# Two meanings of the power

In the modular mode `^` answers the last digit: the power modulo ten, always one of 0 to 9, and for
a negative exponent the same power of the inverse modulo ten, where the base has one. In the exact
mode `^` is the power of integers; a negative exponent has no integer power, and one whose result
could have more than `2 ^ 20` bits is refused before any work is done.

Exponents are unbounded, so neither mode may count up to one, nor even take a step for each of its
bits. The last digits of the powers of a number repeat with period four from the first power on, so
modulo ten an exponent of any size can be replaced by one from 1 to 4 (`powerDigit_eq` says that
this is the power). The bases 0, 1 and -1, the only ones that never grow, are answered from the
parity of the exponent (`unitPower_eq`).
-/

set_option autoImplicit false

namespace LineCalculator

-- A power in this module is the one of the core library.
attribute [local instance (high)] instPowNat

/-- How `^` is computed. -/
inductive PowerMode where
  | modular
  | exact
  deriving DecidableEq

/-! ## Modulo ten -/

/-- The last digit of the power `d ^ e`, from an exponent of at most 4. -/
def powerDigit (d e : Nat) : Nat := if e = 0 then 1 else d ^ ((e - 1) % 4 + 1) % 10

/-- From the first power on, four more factors leave the last digit as it is. -/
theorem pow_add_four_mod_ten (d k : Nat) : d ^ (k + 1 + 4) % 10 = d ^ (k + 1) % 10 := by
  have hdigit : ∀ r : Nat, r < 10 → r ^ 5 % 10 = r := by decide
  have hfive : d ^ 5 % 10 = d % 10 := by
    rw [Nat.pow_mod]
    exact hdigit (d % 10) (Nat.mod_lt d (by decide))
  rw [show k + 1 + 4 = k + 5 by omega, Nat.pow_add, Nat.mul_mod, hfive, ← Nat.mul_mod,
    ← Nat.pow_succ]

theorem pow_add_mul_four_mod_ten (d k q : Nat) :
    d ^ (k + 1 + 4 * q) % 10 = d ^ (k + 1) % 10 := by
  induction q with
  | zero => rfl
  | succ q ih =>
    rw [show k + 1 + 4 * (q + 1) = k + 4 * q + 1 + 4 by omega, pow_add_four_mod_ten,
      show k + 4 * q + 1 = k + 1 + 4 * q by omega, ih]

/-- The last digit found from a small exponent is that of the power. -/
theorem powerDigit_eq (d e : Nat) : powerDigit d e = d ^ e % 10 := by
  unfold powerDigit
  split
  · next h => subst h; rfl
  · next h =>
    rw [← pow_add_mul_four_mod_ten d ((e - 1) % 4) ((e - 1) / 4)]
    congr 2
    omega

/-- The digit that an integer is congruent to modulo ten. -/
def lastDigit (n : Int) : Nat := (n % 10).toNat

/-- The digit whose product with `d` ends in one, if there is one. -/
def inverseDigit? (d : Nat) : Option Nat := (List.range 10).find? fun c => d * c % 10 == 1

/-- The power modulo ten, a digit. A negative exponent raises the inverse of the base. -/
def modularPower (base : Int) : Int → Except Fault Int
  | .ofNat e => .ok (powerDigit (lastDigit base) e)
  | .negSucc e =>
    match inverseDigit? (lastDigit base) with
    | some c => .ok (powerDigit c (e + 1))
    | none => .error (.notInvertible base)

/-! ## Exact powers -/

/-- The greatest number of bits that an exact power may be expected to have. -/
def maxPowerBits : Nat := 1 <<< 20

/-- The number of binary digits of a natural number, none for zero. -/
def bitLength (n : Nat) : Nat := if n = 0 then 0 else n.log2 + 1

/-- The powers of 0, 1 and -1, which only the parity of the exponent decides, and whether it is
    zero. -/
def unitPower (base : Int) (exponent : Nat) : Int :=
  if exponent = 0 then 1 else if exponent % 2 = 0 then base * base else base

/-- The power of integers. A base that grows is refused an exponent that does not fit 32 bits, and
    one with which the bit length of the base, times the exponent, exceeds `maxPowerBits`; for a
    positive exponent that product is never less than the bit length of the power. -/
def exactPower (base : Int) : Int → Except Fault Int
  | .negSucc e => .error (.negativeExponent (.negSucc e))
  | .ofNat e =>
    if base.natAbs ≤ 1 then .ok (unitPower base e)
    else if UInt32.size ≤ e then .error (.exponentTooLarge (.ofNat e))
    else if maxPowerBits < bitLength base.natAbs * e then .error (.exponentTooLarge (.ofNat e))
    else .ok (base ^ e)

/-- For a base that never grows, the parity of the exponent gives the power. -/
theorem unitPower_eq {base : Int} (h : base.natAbs ≤ 1) (e : Nat) :
    unitPower base e = base ^ e := by
  have hb : base = 0 ∨ base = 1 ∨ base = -1 := by omega
  have key : ∀ k : Nat, base ^ (2 * k + 1) = base ∧ base ^ (2 * k + 2) = base * base := by
    intro k
    induction k with
    | zero => simp [Int.pow_succ]
    | succ k ih =>
      have h1 : base ^ (2 * (k + 1) + 1) = base := by
        rw [show 2 * (k + 1) + 1 = 2 * k + 2 + 1 by omega, Int.pow_succ, ih.2]
        rcases hb with rfl | rfl | rfl <;> rfl
      exact ⟨h1, by rw [Int.pow_succ, h1]⟩
  unfold unitPower
  split
  · next h0 => rw [h0, Int.pow_zero]
  · split
    · next h0 heven =>
      rw [show e = 2 * (e / 2 - 1) + 2 by omega, (key _).2]
    · next hodd =>
      rw [show e = 2 * (e / 2) + 1 by omega, (key _).1]

/-- The power in a mode. -/
def PowerMode.power : PowerMode → (base exponent : Int) → Except Fault Int
  | .modular => modularPower
  | .exact => exactPower

/-! ## Operators on integers -/

/-- The value of an operator on two integers. Division drops the fraction, so it rounds toward
    zero; only the power looks at the mode. -/
def Operator.apply (mode : PowerMode) (o : Operator) (lhs rhs : Int) : Except Fault Int :=
  match o with
  | .add => .ok (lhs + rhs)
  | .sub => .ok (lhs - rhs)
  | .mul => .ok (lhs * rhs)
  | .div => if rhs = 0 then .error .divisionByZero else .ok (lhs.tdiv rhs)
  | .pow => mode.power lhs rhs

end LineCalculator
