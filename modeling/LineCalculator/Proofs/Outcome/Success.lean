import LineCalculator.Expr
import LineCalculator.Outcome

/-!
# What a success says

Every stage either hands a value on or stops the line. So a line that came to something went through
all of its stages, and each of them has left its trace: the equivalences of this file take a success
apart into the successes that it is made of. The two for `map` and `bind` are the general ones, and
the rest say what the stages of a line and of an expression are.

Of all results only an assignment that succeeded is recorded, and `Environment.record_cases` says so
in the form in which it is used: what the result is, and what is left.
-/

set_option autoImplicit false

namespace LineCalculator

variable {α β ε : Type}

theorem map_eq_ok_iff {x : Except ε α} {f : α → β} {b : β} :
    x.map f = .ok b ↔ ∃ a, x = .ok a ∧ f a = b := by
  cases x <;> simp [Except.map]

theorem bind_eq_ok_iff {x : Except ε α} {f : α → Except ε β} {b : β} :
    x.bind f = .ok b ↔ ∃ a, x = .ok a ∧ f a = .ok b := by
  cases x <;> simp [Except.bind]

theorem map_eq_error_iff {x : Except ε α} {f : α → β} {e : ε} :
    x.map f = .error e ↔ x = .error e := by
  cases x <;> simp [Except.map]

theorem bind_eq_error_iff {x : Except ε α} {f : α → Except ε β} {e : ε} :
    x.bind f = .error e ↔ x = .error e ∨ ∃ a, x = .ok a ∧ f a = .error e := by
  cases x <;> simp [Except.bind]

/-- Steps taken one after another fail at the first one that fails. -/
theorem foldlM_eq_error_iff {f : β → α → Except ε β} {b : β} {l : List α} {e : ε} :
    l.foldlM f b = .error e ↔
      ∃ us a vs c, l = us ++ a :: vs ∧ us.foldlM f b = .ok c ∧ f c a = .error e := by
  constructor
  · intro h
    induction l generalizing b with
    | nil => exact absurd h (by simp [pure, Except.pure])
    | cons a l ih =>
      rw [List.foldlM_cons] at h
      rcases bind_eq_error_iff.1 h with herror | ⟨c, hc, hrest⟩
      · exact ⟨[], a, l, b, rfl, rfl, herror⟩
      · obtain ⟨us, a', vs, c', hl, hus, ha'⟩ := ih hrest
        refine ⟨a :: us, a', vs, c', by rw [hl, List.cons_append], ?_, ha'⟩
        rw [List.foldlM_cons]
        exact bind_eq_ok_iff.2 ⟨c, hc, hus⟩
  · intro h
    obtain ⟨us, a, vs, c, hl, hus, ha⟩ := h
    rw [hl, List.foldlM_append, hus]
    show (a :: vs).foldlM f c = .error e
    rw [List.foldlM_cons]
    exact bind_eq_error_iff.2 (Or.inl ha)

theorem Fault.lift_eq_ok_iff {x : Except Fault α} {a : α} : Fault.lift x = .ok a ↔ x = .ok a := by
  cases x with
  | error f =>
    show Except.error (LineError.invalidExpression f) = Except.ok a ↔ _
    simp
  | ok b =>
    show Except.ok b = Except.ok a ↔ _
    simp

theorem Fault.lift_eq_error_iff {x : Except Fault α} {e : LineError} :
    Fault.lift x = .error e ↔ ∃ f, x = .error f ∧ .invalidExpression f = e := by
  cases x with
  | error f =>
    show Except.error (LineError.invalidExpression f) = Except.error e ↔ _
    simp
  | ok b =>
    show Except.ok b = Except.error e ↔ _
    simp

variable {mode : PowerMode} {env : Environment}

/-- An operation has a value if both operands have one and the operator has one on them. -/
theorem Expr.eval_binary_eq_ok_iff {o : Operator} {l r : Expr} {v : Int} :
    (Expr.binary o l r).eval mode env = .ok v ↔
      ∃ a b, l.eval mode env = .ok a ∧ r.eval mode env = .ok b ∧ o.meaning mode a b = .ok v := by
  rw [Expr.eval, bind_eq_ok_iff]
  constructor
  · rintro ⟨a, ha, h⟩
    obtain ⟨b, hb, h⟩ := bind_eq_ok_iff.1 h
    exact ⟨a, b, ha, hb, Fault.lift_eq_ok_iff.1 h⟩
  · rintro ⟨a, b, ha, hb, h⟩
    exact ⟨a, ha, bind_eq_ok_iff.2 ⟨b, hb, Fault.lift_eq_ok_iff.2 h⟩⟩

theorem Line.outcome_eq_assigned_iff {l : Line} {x : Text} {v : Int} :
    l.outcome mode env = .ok (.assigned x v) ↔
      ∃ source, l = .assignment x source ∧ source.value env = .ok v := by
  cases l with
  | blank => simp [outcome]
  | number n => simp [outcome]
  | lookup y => simp [outcome, map_eq_ok_iff]
  | expression s => simp [outcome, map_eq_ok_iff]
  | assignment y source =>
    rw [outcome, map_eq_ok_iff]
    constructor
    · rintro ⟨a, ha, h⟩
      obtain ⟨rfl, rfl⟩ := Outcome.assigned.inj h
      exact ⟨source, rfl, ha⟩
    · rintro ⟨source', h, hv⟩
      obtain ⟨rfl, rfl⟩ := Line.assignment.inj h
      exact ⟨v, hv, rfl⟩

theorem resultOf_eq_assigned_iff {line x : Text} {v : Int} :
    resultOf mode env line = .ok (.assigned x v) ↔
      ∃ source, Line.classify (normalize line) = .ok (.assignment x source) ∧
        source.value env = .ok v := by
  rw [resultOf, bind_eq_ok_iff]
  constructor
  · rintro ⟨l, hl, h⟩
    obtain ⟨source, rfl, hv⟩ := Line.outcome_eq_assigned_iff.1 h
    exact ⟨source, hl, hv⟩
  · rintro ⟨source, hl, hv⟩
    exact ⟨_, hl, Line.outcome_eq_assigned_iff.2 ⟨source, rfl, hv⟩⟩

/-- A result is recorded by defining the variable that it assigns, and otherwise not at all. -/
theorem Environment.record_cases (env : Environment) (result : Except LineError Outcome) :
    (∃ x v, result = .ok (.assigned x v) ∧ env.record result = env.define x v) ∨
      (∀ x v, result ≠ .ok (.assigned x v)) ∧ env.record result = env := by
  cases result with
  | error e => exact Or.inr ⟨by simp, rfl⟩
  | ok o =>
    cases o with
    | assigned x v => exact Or.inl ⟨x, v, rfl, rfl⟩
    | value n => exact Or.inr ⟨by simp, rfl⟩
    | blank => exact Or.inr ⟨by simp, rfl⟩

end LineCalculator
