import LineCalculator.Power

/-!
# What can go wrong between two numbers

Only a division and a power can fail, and each mode of powers has faults of its own: modulo ten a
base may have no inverse, and no exponent is too large; in exact powers an exponent may be negative or
too large, and nothing is inverted. `Fault.Arithmetic` lists these, and no operator has another one
(`Operator.arithmetic_of_apply`).
-/

set_option autoImplicit false

namespace LineCalculator

/-- The faults of the operators in a mode of powers. -/
inductive Fault.Arithmetic : PowerMode → Fault → Prop
  | divisionByZero (mode : PowerMode) : Arithmetic mode .divisionByZero
  | notInvertible (base : Int) : Arithmetic .modular (.notInvertible base)
  | negativeExponent (exponent : Int) : Arithmetic .exact (.negativeExponent exponent)
  | exponentTooLarge (exponent : Int) : Arithmetic .exact (.exponentTooLarge exponent)

theorem arithmetic_of_modularPower {b e : Int} {f : Fault} (h : modularPower b e = .error f) :
    f.Arithmetic .modular := by
  unfold modularPower at h
  split at h
  · exact absurd h (by simp)
  · split at h
    · exact absurd h (by simp)
    · have hf := Except.error.inj h
      rw [← hf]
      exact .notInvertible b

theorem arithmetic_of_exactPower {b e : Int} {f : Fault} (h : exactPower b e = .error f) :
    f.Arithmetic .exact := by
  unfold exactPower at h
  split at h
  · have hf := Except.error.inj h
    rw [← hf]
    exact .negativeExponent _
  · split at h
    · exact absurd h (by simp)
    · split at h
      · have hf := Except.error.inj h
        rw [← hf]
        exact .exponentTooLarge _
      · split at h
        · have hf := Except.error.inj h
          rw [← hf]
          exact .exponentTooLarge _
        · exact absurd h (by simp)

/-- **An operator fails for arithmetic reasons only.** -/
theorem Operator.arithmetic_of_apply {mode : PowerMode} {o : Operator} {a b : Int} {f : Fault}
    (h : o.apply mode a b = .error f) : f.Arithmetic mode := by
  cases o with
  | add => exact absurd h (by simp [apply])
  | sub => exact absurd h (by simp [apply])
  | mul => exact absurd h (by simp [apply])
  | div =>
    by_cases hb : b = 0
    · have hf : .divisionByZero = f := by simpa [apply, hb] using h
      rw [← hf]
      exact .divisionByZero mode
    · exact absurd h (by simp [apply, hb])
  | pow =>
    cases mode with
    | modular => exact arithmetic_of_modularPower h
    | exact => exact arithmetic_of_exactPower h

end LineCalculator
