import LineCalculator.Proofs.Outcome.Success
import LineCalculator.Proofs.Power.Modes
import LineCalculator.Session

/-!
# Two sessions that differ in their modes

The mode of powers reaches nothing but the value of an expression that takes a power. In particular
it does not reach the environment: an expression never writes, and what an assignment writes is not
computed but copied. So two sessions on the same lines have the same environments, whatever modes
they choose, and the results of a line can differ only where a power is taken.

The step is `evaluate_modes`, about one line in one environment; the run is an induction that needs
only that the environments go on agreeing.
-/

set_option autoImplicit false

namespace LineCalculator

/-- The line is an expression with a power in its postfix sequence. -/
def TakesPower (line : Text) : Prop :=
  ∃ s p, Line.classify (normalize line) = .ok (.expression s) ∧ Postfix.ofText s = .ok p ∧
    p.HasPower

/-! ## One line -/

theorem evaluateExpression_modes (mode mode' : PowerMode) (env : Environment) {s : Text}
    (h : ∀ p, Postfix.ofText s = .ok p → ¬ p.HasPower) :
    evaluateExpression mode env s = evaluateExpression mode' env s := by
  rw [evaluateExpression, evaluateExpression]
  cases hp : Postfix.ofText s with
  | error f => rfl
  | ok p => exact Postfix.evaluate_of_not_hasPower (h p hp) mode mode'

theorem resultOf_modes (mode mode' : PowerMode) (env : Environment) {line : Text}
    (h : ¬ TakesPower line) : resultOf mode env line = resultOf mode' env line := by
  rw [resultOf, resultOf]
  cases hc : Line.classify (normalize line) with
  | error e => rfl
  | ok l =>
    cases l with
    | expression s =>
      have hfree : ∀ p, Postfix.ofText s = .ok p → ¬ p.HasPower := by
        intro p hp hpower
        exact h ⟨s, p, hc, hp, hpower⟩
      show (evaluateExpression mode env s).map _ = (evaluateExpression mode' env s).map _
      rw [evaluateExpression_modes mode mode' env hfree]
    | blank => rfl
    | number n => rfl
    | lookup x => rfl
    | assignment x source => rfl

/-- What a line assigns does not depend on the mode. -/
theorem resultOf_eq_assigned_modes (mode mode' : PowerMode) {env : Environment} {line x : Text}
    {v : Int} (h : resultOf mode env line = .ok (.assigned x v)) :
    resultOf mode' env line = .ok (.assigned x v) :=
  resultOf_eq_assigned_iff.2 (resultOf_eq_assigned_iff.1 h)

/-- **The mode of a line shows in the result of a power and nowhere else.** -/
theorem evaluate_modes (mode mode' : PowerMode) (env : Environment) (line : Text) :
    (evaluate mode env line).2 = (evaluate mode' env line).2 ∧
      (¬ TakesPower line → (evaluate mode env line).1 = (evaluate mode' env line).1) := by
  rw [evaluate_eq, evaluate_eq]
  refine ⟨?_, resultOf_modes mode mode' env⟩
  dsimp only
  rcases env.record_cases (resultOf mode env line) with ⟨x, v, hr, -⟩ | ⟨hne, hrecord⟩
  · rw [hr, resultOf_eq_assigned_modes mode mode' hr]
  · rcases env.record_cases (resultOf mode' env line) with ⟨x, v, hr', -⟩ | ⟨-, hrecord'⟩
    · exact absurd (resultOf_eq_assigned_modes mode' mode hr') (hne x v)
    · rw [hrecord, hrecord']

/-! ## A whole session -/

theorem length_evaluateAll (env : Environment) (entries : List Entry) :
    (evaluateAll env entries).length = entries.length := by
  induction entries generalizing env with
  | nil => rfl
  | cons s entries ih => rw [evaluateAll, List.length_cons, ih, List.length_cons]

theorem evaluateAll_agree (env : Environment) {entries entries' : List Entry}
    (h : entries.map Entry.line = entries'.map Entry.line) {i : Nat} {s : Entry}
    {r r' : Except LineError Outcome × Environment} (hs : entries[i]? = some s)
    (hr : (evaluateAll env entries)[i]? = some r)
    (hr' : (evaluateAll env entries')[i]? = some r') :
    r.2 = r'.2 ∧ (¬ TakesPower s.line → r.1 = r'.1) := by
  induction entries generalizing env entries' i with
  | nil => exact absurd hs (by simp)
  | cons t entries ih =>
    cases entries' with
    | nil => exact absurd h (by simp)
    | cons t' entries' =>
      obtain ⟨hline, htail⟩ := List.cons.inj h
      obtain ⟨henv, hresult⟩ := evaluate_modes t.mode t'.mode env t.line
      have hfirst : evaluate t'.mode env t'.line = evaluate t'.mode env t.line := by
        rw [show t'.line = t.line from hline.symm]
      rw [evaluateAll] at hr hr'
      -- From here on both sessions are in the environment that the first line left.
      rw [hfirst, ← henv] at hr'
      cases i with
      | zero =>
        obtain rfl : t = s := Option.some.inj hs
        obtain rfl := Option.some.inj hr
        obtain rfl := Option.some.inj hr'
        exact ⟨henv, hresult⟩
      | succ i => exact ih _ htail hs hr hr'

/-- **Powers never leak into the variables.** Two sessions on the same lines, each line in any mode
    on either side, have the same environment after every line, and the same result for every line
    that takes no power. -/
theorem evaluateAll_modes (env : Environment) {entries entries' : List Entry}
    (h : entries.map Entry.line = entries'.map Entry.line) :
    (evaluateAll env entries).length = entries.length ∧
    (evaluateAll env entries').length = entries.length ∧
    ∀ (i : Nat) (s : Entry) (r r' : Except LineError Outcome × Environment),
      entries[i]? = some s → (evaluateAll env entries)[i]? = some r →
      (evaluateAll env entries')[i]? = some r' →
        r.2 = r'.2 ∧ (¬ TakesPower s.line → r.1 = r'.1) := by
  have hlength : entries'.length = entries.length := by
    simpa using (congrArg List.length h).symm
  refine ⟨length_evaluateAll env entries, (length_evaluateAll env entries').trans hlength, ?_⟩
  intro i s r r' hs hr hr'
  exact evaluateAll_agree env h hs hr hr'

/-- The power is 32 in one session and 2 in the other; the sum behind it is the same in both, and so
    is the environment that it leaves. -/
theorem evaluateAll_modes_sum :
    ∃ r r', (evaluateAll .empty [⟨.exact, "2 ^ 5".toList⟩, ⟨.exact, "a = 7".toList⟩,
        ⟨.modular, "a + 1".toList⟩])[2]? = some r ∧
      (evaluateAll .empty [⟨.modular, "2 ^ 5".toList⟩, ⟨.modular, "a = 7".toList⟩,
        ⟨.exact, "a + 1".toList⟩])[2]? = some r' ∧ r.2 = r'.2 ∧ r.1 = r'.1 := by
  have hsum : ¬ TakesPower "a + 1".toList := by
    rintro ⟨s, p, hc, hp, hpower⟩
    have hline : Line.classify (normalize "a + 1".toList) = .ok (.expression "a+1".toList) := rfl
    obtain rfl := Line.expression.inj (Except.ok.inj (hline.symm.trans hc))
    have hitems : Postfix.ofText "a+1".toList = .ok [.var ['a'], .number 1, .op .add] := rfl
    obtain rfl := Except.ok.inj (hitems.symm.trans hp)
    exact absurd hpower (by unfold Postfix.HasPower; decide)
  have hlines : List.map Entry.line [⟨.exact, "2 ^ 5".toList⟩, ⟨.exact, "a = 7".toList⟩,
        ⟨.modular, "a + 1".toList⟩] =
      List.map Entry.line [⟨.modular, "2 ^ 5".toList⟩, ⟨.modular, "a = 7".toList⟩,
        ⟨.exact, "a + 1".toList⟩] := rfl
  obtain ⟨-, -, hagree⟩ := evaluateAll_modes .empty hlines
  obtain ⟨henv, hresult⟩ := hagree 2 _ _ _ rfl rfl rfl
  exact ⟨_, _, rfl, rfl, henv, hresult hsum⟩

end LineCalculator
