import LineCalculator.Proofs.Line.Footprint
import LineCalculator.Proofs.Session.Frame

/-!
# Lines that do not meet

Two lines of which neither writes what the other one reads or writes may change places. Each finds
what it reads as it would without the other line, so its result stays the same, and what the two
results record goes to different variables, so the order in which it is recorded does not matter.

That a line fails makes no difference here: it fails in either place, and then it records nothing.
-/

set_option autoImplicit false

namespace LineCalculator

variable {env : Environment} {line line' : Text}

/-- Results that assign to different variables are recorded in any order. -/
theorem Environment.record_comm {result result' : Except LineError Outcome}
    (h : ∀ x v w, result = .ok (.assigned x v) → result' ≠ .ok (.assigned x w)) :
    (env.record result).record result' = (env.record result').record result := by
  apply ext_get?
  intro x
  simp only [get?_record]
  cases hx : assignedTo? x result with
  | none => rw [Option.none_or, Option.none_or]
  | some v =>
    cases hx' : assignedTo? x result' with
    | none => rw [Option.none_or, Option.none_or]
    | some w => exact absurd (assignedTo?_eq_some_iff.1 hx') (h x v w (assignedTo?_eq_some_iff.1 hx))

theorem Apart.symm (h : Apart line line') : Apart line' line := ⟨h.right, h.left⟩

/-- A line before it does not show in the result of the other one. -/
theorem Apart.resultOf_eq (h : Apart line line') (mode mode' : PowerMode) :
    resultOf mode' (evaluate mode env line).2 line' = resultOf mode' env line' := by
  apply resultOf_congr
  intro x hx
  apply get?_evaluate_of_not_mem
  intro hwrites
  exact (h.left x hwrites).1 hx

/-- **Lines that are apart commute**, and what a line comes to depends on the variables that it reads
    and on no others. -/
theorem evaluate_commute :
    (∀ (mode : PowerMode) (env env' : Environment) (line : Text),
      (∀ x ∈ readsOf line, env.get? x = env'.get? x) →
        (evaluate mode env line).1 = (evaluate mode env' line).1) ∧
    ∀ (mode mode' : PowerMode) (env : Environment) (line line' : Text), Apart line line' →
      (evaluate mode' (evaluate mode env line).2 line').1 = (evaluate mode' env line').1 ∧
      (evaluate mode (evaluate mode' env line').2 line).1 = (evaluate mode env line).1 ∧
      (evaluate mode' (evaluate mode env line).2 line').2 =
        (evaluate mode (evaluate mode' env line').2 line).2 := by
  constructor
  · intro mode env env' line h
    rw [fst_evaluate, fst_evaluate, resultOf_congr h]
  · intro mode mode' env line line' h
    have hfirst : resultOf mode' (evaluate mode env line).2 line' = resultOf mode' env line' :=
      h.resultOf_eq mode mode'
    have hsecond : resultOf mode (evaluate mode' env line').2 line = resultOf mode env line :=
      h.symm.resultOf_eq mode' mode
    refine ⟨?_, ?_, ?_⟩
    · rw [fst_evaluate, hfirst, fst_evaluate]
    · rw [fst_evaluate, hsecond, fst_evaluate]
    · rw [snd_evaluate mode' _ line', hfirst, snd_evaluate mode (evaluate _ _ _).2 line, hsecond,
        snd_evaluate, snd_evaluate]
      apply Environment.record_comm
      intro x v w hassigned hassigned'
      exact (h.left x (mem_writesOf_of_assigned hassigned)).2
        (mem_writesOf_of_assigned hassigned')

/-- Both lines read `b`, which neither writes, so copying it may come before the power or after it. -/
theorem evaluate_commute_copy_power :
    let env := (Environment.empty.define ['b'] 3).define ['c'] 2
    let copied := (evaluate .modular env "a = b".toList).2
    Apart "a = b".toList "b ^ c".toList ∧
      (evaluate .exact copied "b ^ c".toList).1 = .ok (.value 9) ∧
      (evaluate .exact copied "b ^ c".toList).2 =
        (evaluate .modular (evaluate .exact env "b ^ c".toList).2 "a = b".toList).2 := by
  intro env copied
  have hapart : Apart "a = b".toList "b ^ c".toList := ⟨by decide, by decide⟩
  obtain ⟨hpower, -, hafter⟩ := evaluate_commute.2 .modular .exact env _ _ hapart
  exact ⟨hapart, hpower.trans rfl, hafter⟩

end LineCalculator
