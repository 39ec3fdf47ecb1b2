import LineCalculator.Proofs.Line.Shape
import LineCalculator.Proofs.NormalForm.Absorption
import LineCalculator.Proofs.Outcome.Success
import LineCalculator.Proofs.Postfix.Intake
import LineCalculator.Proofs.Token.Infix

/-!
# Which expression lines have a value

No stage checks that operators stand between operands. The yard takes in every phrase, and the
evaluator sees the order only, without the parentheses. So a line has a value **exactly if its order
is a postorder**, and this holds of some lines that are no expressions: `(1)2+` and `1(+2)` are both
`1 2 +` once they are in order.

Such a line always has two operands side by side. Without that, the order is a postorder only of a
well-formed expression, and all other lines end in an error.
-/

set_option autoImplicit false

namespace LineCalculator

variable {mode : PowerMode} {env : Environment}

/-- The value of a text is the value of the tree that its order is the postorder of. -/
theorem evaluateExpression_eq_ok_iff {s : Text} {v : Int} :
    evaluateExpression mode env s = .ok v ↔
      ∃ (p : Phrase) (e : Expr), p.tokens = Token.scan s ∧ p.order = e.postorder ∧
        e.eval mode env = .ok v := by
  rw [evaluateExpression, bind_eq_ok_iff]
  constructor
  · rintro ⟨q, hq, h⟩
    obtain ⟨p, htokens, rfl⟩ := Postfix.ofTokens_eq_ok_iff.1 (Fault.lift_eq_ok_iff.1 hq)
    obtain ⟨e, he, hv⟩ := Postfix.evaluate_eq_ok_iff.1 h
    exact ⟨p, e, htokens, he, hv⟩
  · rintro ⟨p, e, htokens, he, hv⟩
    refine ⟨p.order, Fault.lift_eq_ok_iff.2 ?_, Postfix.evaluate_eq_ok_iff.2 ⟨e, he, hv⟩⟩
    rw [Postfix.ofText, ← htokens, Postfix.ofTokens_tokens]

/-- An expression line comes to the value or the error of its normal form. -/
theorem evaluate_of_classify {line text : Text}
    (h : Line.classify (normalize line) = .ok (.expression text)) :
    (evaluate mode env line).1 = (evaluateExpression mode env (normalize line)).map .value := by
  obtain rfl := Line.eq_of_classify_eq_expression (trimBlanks_normalize line) h
  rw [fst_evaluate, resultOf, h]
  rfl

/-- **A value is the value of a postorder**, and comes from a well-formed expression exactly if no
    two operands of the line stand side by side. Every other expression line fails, among them each
    line with its operands apart that is no well-formed expression. -/
theorem value_iff_postorder (mode : PowerMode) (env : Environment) {line text : Text}
    (h : Line.classify (normalize line) = .ok (.expression text)) :
    (∀ v, (evaluate mode env line).1 = .ok (.value v) ↔
      ∃ (p : Phrase) (e : Expr), p.tokens = Token.scan (normalize line) ∧ p.order = e.postorder ∧
        e.eval mode env = .ok v) ∧
    (∀ v, (evaluate mode env line).1 = .ok (.value v) →
      (IsInfix (Token.scan (normalize line)) ↔ OperandsApart (Token.scan (normalize line)))) ∧
    ((∃ v, (evaluate mode env line).1 = .ok (.value v)) ∨
      ∃ x, (evaluate mode env line).1 = .error x) ∧
    (OperandsApart (Token.scan (normalize line)) → ¬ IsInfix (Token.scan (normalize line)) →
      ∃ x, (evaluate mode env line).1 = .error x) := by
  have hvalue : ∀ v, (evaluate mode env line).1 = .ok (.value v) ↔
      evaluateExpression mode env (normalize line) = .ok v := by
    intro v
    rw [evaluate_of_classify h]
    cases evaluateExpression mode env (normalize line) <;> simp [Except.map]
  have hwell : ∀ v, (evaluate mode env line).1 = .ok (.value v) →
      (IsInfix (Token.scan (normalize line)) ↔ OperandsApart (Token.scan (normalize line))) := by
    intro v hv
    obtain ⟨p, e, htokens, he, -⟩ := evaluateExpression_eq_ok_iff.1 ((hvalue v).1 hv)
    rw [← htokens, p.isInfix_tokens_iff, he, Postfix.surplus_postorder]
    exact and_iff_left rfl
  have htotal : (∃ v, (evaluate mode env line).1 = .ok (.value v)) ∨
      ∃ x, (evaluate mode env line).1 = .error x := by
    rw [evaluate_of_classify h]
    cases evaluateExpression mode env (normalize line) with
    | error x => exact Or.inr ⟨x, rfl⟩
    | ok v => exact Or.inl ⟨v, rfl⟩
  refine ⟨fun v => (hvalue v).trans evaluateExpression_eq_ok_iff, hwell, htotal, ?_⟩
  intro hapart hno
  rcases htotal with ⟨v, hv⟩ | herror
  · exact absurd ((hwell v hv).2 hapart) hno
  · exact herror

/-- The value of the line shows that it is well-formed. -/
theorem value_iff_postorder_sum_mul :
    (evaluate .modular .empty "1 + 2 * 3".toList).1 = .ok (.value 7) ∧
      IsInfix (Token.scan (normalize "1 + 2 * 3".toList)) := by
  have h : Line.classify (normalize "1 + 2 * 3".toList) = .ok (.expression "1+2*3".toList) := rfl
  have hvalue : (evaluate .modular .empty "1 + 2 * 3".toList).1 = .ok (.value 7) := rfl
  exact ⟨hvalue, ((value_iff_postorder .modular .empty h).2.1 7 hvalue).2 (by decide)⟩

/-- The three tokens `1`, `2` and `+` are in the right order but are no infix. -/
theorem value_of_not_isInfix :
    Line.classify (normalize "(1)2+".toList) = .ok (.expression "(1)2+".toList) ∧
      (evaluate .modular .empty "(1)2+".toList).1 = .ok (.value 3) ∧
      ¬ IsInfix (Token.scan (normalize "(1)2+".toList)) := by
  refine ⟨rfl, rfl, ?_⟩
  intro h
  exact absurd h.operandsApart (by decide)

end LineCalculator
