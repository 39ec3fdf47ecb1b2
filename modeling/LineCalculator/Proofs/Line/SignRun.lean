import LineCalculator.Proofs.Line.Literal

/-!
# Signs multiply out

There is no unary operator, so signs in front of a literal are no operation either. They mean what
they would if they were: each minus changes the sign of the number. A run of signs becomes one sign in
the normal form of a line, and a literal takes one sign. So the two places where a literal may stand,
alone on a line and on the right of an assignment, read the same number for any run, with blanks in
it or not.
-/

set_option autoImplicit false

namespace LineCalculator

/-- The number that the minuses of a run make of `n`: an even number of them keeps it, an odd number
    makes it negative. -/
def underSigns (r : Text) (n : Int) : Int := if r.count '-' % 2 = 0 then n else -n

variable {r ds v : Text}

/-- In its normal form a literal behind signs denotes the number that its minuses make of it. -/
theorem signedNumeral_normalize (hr : ∀ c ∈ r, isSign c = true ∨ isBlank c = true)
    (hds : ds.isNumeral = true) (hv : ∀ c ∈ v, isBlank c = true) :
    SignedNumeral (normalize (r ++ ds ++ v)) (underSigns r (Decimal.horner ds)) := by
  have hword := Text.isWord_of_isNumeral hds
  by_cases hsign : ∃ c ∈ r, isSign c = true
  · rw [normalize_signed_word ⟨hr, hsign⟩ hword hv, signOf, underSigns]
    by_cases heven : r.count '-' % 2 = 0
    · rw [if_pos heven, if_pos heven]
      exact .plus hds
    · rw [if_neg heven, if_neg heven]
      exact .minus hds
  · have hblank : ∀ c ∈ r, isBlank c = true := by
      intro c hc
      exact (hr c hc).resolve_left fun h => hsign ⟨c, hc, h⟩
    have hnone : r.count '-' = 0 := by
      rw [List.count_eq_zero]
      intro hminus
      exact hsign ⟨'-', hminus, rfl⟩
    rw [normalize_word hblank hword hv, underSigns, hnone]
    exact .plain hds

/-- **Sign runs before a literal multiply out**, on a line of their own and on the right of an
    assignment. -/
theorem evaluate_sign_run (mode : PowerMode) (env : Environment)
    (hr : ∀ c ∈ r, isSign c = true ∨ isBlank c = true) (hds : ds.isNumeral = true)
    (hv : ∀ c ∈ v, isBlank c = true) :
    evaluate mode env (r ++ ds ++ v) =
      (.ok (.value (underSigns r (Decimal.horner ds))), env) ∧
    ∀ x w : Text, x.isName = true → (∀ c ∈ w, isBlank c = true) →
      evaluate mode env (x ++ w ++ '=' :: (r ++ ds ++ v)) =
        (.ok (.assigned x (underSigns r (Decimal.horner ds))),
          env.define x (underSigns r (Decimal.horner ds))) := by
  have hnumeral := signedNumeral_normalize hr hds hv
  constructor
  · rw [evaluate_eq, resultOf_of_numeral hnumeral]
    rfl
  · intro x w hx hw
    have hline : normalize (x ++ w ++ '=' :: (r ++ ds ++ v)) =
        x ++ '=' :: normalize (r ++ ds ++ v) := by
      have hassign := normalize_assignment (u := []) (by simp) (Text.isWord_of_isName hx) hw
        (r ++ ds ++ v)
      rwa [List.nil_append] at hassign
    rw [evaluate_eq, resultOf_of_assigned_numeral hx hnumeral hline]
    rfl

/-- Three minuses, with blanks among them, and a number with leading zeros. -/
theorem evaluate_sign_run_three_minuses :
    evaluate .exact .empty " -+ - -007 ".toList = (.ok (.value (-7)), .empty) ∧
      evaluate .modular .empty "a = -+ - -007 ".toList =
        (.ok (.assigned ['a'] (-7)), Environment.empty.define ['a'] (-7)) := by
  have hr : ∀ c ∈ " -+ - -".toList, isSign c = true ∨ isBlank c = true := by
    simp [isSign, isBlank]
  have hds : Text.isNumeral "007".toList = true := rfl
  have hv : ∀ c ∈ [' '], isBlank c = true := by simp [isBlank]
  exact ⟨(evaluate_sign_run .exact .empty hr hds hv).1,
    (evaluate_sign_run .modular .empty hr hds hv).2 ['a'] [' '] rfl hv⟩

end LineCalculator
