import LineCalculator.Proofs.Expr.Spelling
import LineCalculator.Proofs.Outcome.Success
import LineCalculator.Proofs.Power.Congruence
import LineCalculator.Proofs.Power.Modes

/-!
# The last digit of an expression

Evaluated in the two modes, an expression runs over different numbers from its first power on. If
they agree in the last digit they go on doing so through sums, differences, products and bases of
powers, because all of these are compatible with the congruence modulo ten. An exponent and the
operands of a division have to be the same number, and are if no power is in them. This is what
`DigitSafe` asks for, and then the modular evaluation follows the exact one step by step
(`DigitSafe.exists_eval`) and cannot fail where that one succeeds.
-/

set_option autoImplicit false

namespace LineCalculator

namespace Expr

/-- No exponent holds a power, and no operand of a division does. -/
def DigitSafe : Expr → Prop
  | number _ | var _ => True
  | binary o l r =>
    l.DigitSafe ∧ r.DigitSafe ∧ (o = .pow → r.PowerFree) ∧
      (o = .div → l.PowerFree ∧ r.PowerFree)

variable {env : Environment}

/-- **The modular evaluation keeps the last digit of the exact one.** -/
theorem DigitSafe.exists_eval {e : Expr} (h : e.DigitSafe) {v : Int}
    (hv : e.eval .exact env = .ok v) : ∃ w, e.eval .modular env = .ok w ∧ w ≡ v [ZMOD 10] := by
  induction e generalizing v with
  | number n => exact ⟨v, hv, Int.ModEq.refl v⟩
  | var x => exact ⟨v, hv, Int.ModEq.refl v⟩
  | binary o l r ihl ihr =>
    obtain ⟨hl, hr, hpow, hdiv⟩ := h
    obtain ⟨a, b, ha, hb, ho⟩ := eval_binary_eq_ok_iff.1 hv
    obtain ⟨a', ha', hamod⟩ := ihl hl ha
    obtain ⟨b', hb', hbmod⟩ := ihr hr hb
    cases o with
    | add =>
      obtain rfl : a + b = v := Except.ok.inj ho
      exact ⟨a' + b', eval_binary_eq_ok_iff.2 ⟨a', b', ha', hb', rfl⟩, hamod.add hbmod⟩
    | sub =>
      obtain rfl : a - b = v := Except.ok.inj ho
      exact ⟨a' - b', eval_binary_eq_ok_iff.2 ⟨a', b', ha', hb', rfl⟩, hamod.sub hbmod⟩
    | mul =>
      obtain rfl : a * b = v := Except.ok.inj ho
      exact ⟨a' * b', eval_binary_eq_ok_iff.2 ⟨a', b', ha', hb', rfl⟩, hamod.mul hbmod⟩
    | div =>
      -- The quotient is no function of last digits, so here both operands have to be the same.
      obtain ⟨hlfree, hrfree⟩ := hdiv rfl
      rw [hlfree.eval_eq .exact .modular] at ha
      rw [hrfree.eval_eq .exact .modular] at hb
      exact ⟨v, eval_binary_eq_ok_iff.2 ⟨a, b, ha, hb, ho⟩, Int.ModEq.refl v⟩
    | pow =>
      rw [(hpow rfl).eval_eq .exact .modular] at hb
      obtain ⟨w, hw, hmod⟩ := modularPower_of_exactPower hamod ho
      exact ⟨w, eval_binary_eq_ok_iff.2 ⟨a', b, ha', hb, hw⟩, hmod⟩

end Expr

/-- **The two modes agree on the last digit** of every line that spells an expression with no power
    in an exponent or in a division: what has a value in the exact mode has one in the modular mode,
    with the same last digit. Without any power the results are the same. -/
theorem last_digit_of_spells (env : Environment) {e : Expr} {s : Text} (hs : Spells 0 e s) :
    (e.DigitSafe → ∀ v, (evaluate .exact env s).1 = .ok (.value v) →
      ∃ w, (evaluate .modular env s).1 = .ok (.value w) ∧ w ≡ v [ZMOD 10]) ∧
    (e.PowerFree → (evaluate .exact env s).1 = (evaluate .modular env s).1) := by
  have hresult : ∀ mode, (evaluate mode env s).1 = (e.eval mode env).map .value :=
    fun mode => (fst_evaluate mode env s).trans (hs.resultOf_eq mode env)
  constructor
  · intro hsafe v hv
    rw [hresult] at hv
    obtain ⟨a, ha, hav⟩ := map_eq_ok_iff.1 hv
    obtain rfl := Outcome.value.inj hav
    obtain ⟨w, hw, hmod⟩ := hsafe.exists_eval ha
    refine ⟨w, ?_, hmod⟩
    rw [hresult, hw]
    rfl
  · intro hfree
    rw [hresult, hresult, hfree.eval_eq .exact .modular]

/-- Modulo ten the base is -5 in place of 25, and the value 19 in place of 62499. -/
theorem last_digit_of_spells_cube :
    ∃ w, (evaluate .modular (Environment.empty.define ['x'] (-7)) "(2^5+x)^3*4-1".toList).1 =
        .ok (.value w) ∧ w ≡ 62499 [ZMOD 10] := by
  have hpower := Spells.binary_symbol (k := 2) (o := .pow) (by decide) (.digit (c := '2') rfl)
    (.digit (c := '5') rfl)
  have hsum := Spells.binary_symbol (k := 0) (o := .add) (by decide) hpower (.letter (c := 'x') rfl)
  have hcube := Spells.binary_symbol (k := 10) (o := .pow) (by decide) (.group hsum)
    (.digit (c := '3') rfl)
  have hproduct := Spells.binary_symbol (k := 2) (o := .mul) (by decide) hcube
    (.digit (c := '4') rfl)
  have hline := Spells.binary_symbol (k := 0) (o := .sub) (by decide) hproduct
    (.digit (c := '1') rfl)
  refine (last_digit_of_spells (Environment.empty.define ['x'] (-7)) hline).1 ?_ 62499 ?_
  · simp [Expr.DigitSafe, Expr.PowerFree]
  · rfl

end LineCalculator
