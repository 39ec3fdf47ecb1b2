import LineCalculator.Line.Footprint
import LineCalculator.Proofs.Postfix.Conservation

/-!
# A line depends on what it reads and changes what it writes

The footprint of a line is read off its shape, and this is what makes it one: two environments in
which the variables that the line reads are the same give it the same result (`resultOf_congr`), and
a variable that it does not write is worth afterwards what it was worth before.

The first is not clear for an expression, where the footprint is a list of tokens and the evaluation
runs on items. Every variable of the sequence is a name of the text, because the conversion adds
nothing. How far the evaluation gets does not matter, since the two runs stop together
(`Postfix.evaluate_congr`).
-/

set_option autoImplicit false

namespace LineCalculator

variable {mode : PowerMode} {env env' : Environment} {line x : Text}

/-! ## Reading -/

theorem Token.mem_names_iff {ts : List Token} : x ∈ names ts ↔ .name x ∈ ts := by
  rw [names, List.mem_filterMap]
  constructor
  · rintro ⟨t, ht, hx⟩
    cases t with
    | name y => exact Option.some.inj hx ▸ ht
    | _ => exact absurd hx (by simp)
  · intro h
    exact ⟨_, h, rfl⟩

/-- The variables of a postfix sequence are the names among the tokens. -/
theorem Postfix.var_mem_iff {s : Text} {p : Postfix} (h : ofText s = .ok p) :
    .var x ∈ p ↔ x ∈ Token.names (Token.scan s) := by
  rw [(perm_of_ofTokens h).mem_iff, List.mem_filterMap, Token.mem_names_iff]
  simp [Token.item?_eq_var_iff]

theorem evaluateExpression_congr {s : Text}
    (h : ∀ x ∈ Token.names (Token.scan s), env.get? x = env'.get? x) :
    evaluateExpression mode env s = evaluateExpression mode env' s := by
  rw [evaluateExpression, evaluateExpression]
  cases hp : Postfix.ofText s with
  | error f => rfl
  | ok p => exact Postfix.evaluate_congr fun x hx => h x ((Postfix.var_mem_iff hp).1 hx)

theorem Line.outcome_congr {l : Line} (h : ∀ x ∈ l.reads, env.get? x = env'.get? x) :
    l.outcome mode env = l.outcome mode env' := by
  cases l with
  | blank => rfl
  | number n => rfl
  | lookup x => rw [outcome, outcome, Environment.lookup_congr (h x List.mem_cons_self)]
  | assignment y source =>
    cases source with
    | number n => rfl
    | var x =>
      show (env.lookup x).map _ = (env'.lookup x).map _
      rw [Environment.lookup_congr (h x List.mem_cons_self)]
  | expression s => rw [outcome, outcome, evaluateExpression_congr h]

/-- **The result of a line is a matter of what it reads.** -/
theorem resultOf_congr (h : ∀ x ∈ readsOf line, env.get? x = env'.get? x) :
    resultOf mode env line = resultOf mode env' line := by
  rw [readsOf] at h
  rw [resultOf, resultOf]
  cases hc : Line.classify (normalize line) with
  | error e => rfl
  | ok l =>
    rw [hc] at h
    exact Line.outcome_congr h

/-! ## Writing -/

theorem mem_writesOf_of_assigned {v : Int} (h : resultOf mode env line = .ok (.assigned x v)) :
    x ∈ writesOf line := by
  obtain ⟨source, hc, -⟩ := resultOf_eq_assigned_iff.1 h
  rw [writesOf, hc]
  exact List.mem_cons_self

theorem get?_evaluate_of_not_mem (h : x ∉ writesOf line) :
    (evaluate mode env line).2.get? x = env.get? x := by
  rw [snd_evaluate]
  rcases env.record_cases (resultOf mode env line) with ⟨y, v, hr, hrecord⟩ | ⟨-, hrecord⟩
  · have hne : y ≠ x := by
      intro hy
      exact h (hy ▸ mem_writesOf_of_assigned hr)
    rw [hrecord, env.get?_define, if_neg hne]
  · rw [hrecord]

end LineCalculator
