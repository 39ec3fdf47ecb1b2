import LineCalculator.Proofs.Line.Grammar

/-!
# Lines of literals

A line whose normal form is a signed numeral has that number as its value, in every environment and
mode, and with a name and an equals sign in front it assigns the number. Which texts have such a
normal form is not asked here, except for the numerals themselves: with one sign or none before the
digits a numeral is normal already, so what is printed for an integer is read as it stands
(`signedNumeral_ofInt`).
-/

set_option autoImplicit false

namespace LineCalculator

/-! ## Numerals -/

theorem Decimal.horner_ofNat (n : Nat) : horner (ofNat n) = n := by
  rw [← numeralValue_eq_horner, numeralValue_ofNat]

/-- An integer is printed as a signed numeral that denotes it. -/
theorem Decimal.signedNumeral_ofInt (v : Int) : SignedNumeral (ofInt v) v := by
  cases v with
  | ofNat n =>
    have hplain := SignedNumeral.plain (isNumeral_ofNat n)
    rwa [horner_ofNat] at hplain
  | negSucc n =>
    have hminus := SignedNumeral.minus (isNumeral_ofNat (n + 1))
    rwa [horner_ofNat] at hminus

theorem Text.IsWord.normalize_eq {w : Text} (hw : w.IsWord) : normalize w = w := by
  have hword := normalize_word (u := []) (v := []) (by simp) hw (by simp)
  rwa [List.nil_append, List.append_nil] at hword

theorem Text.IsWord.normalize_sign {w : Text} (hw : w.IsWord) {c : Char} (hc : isSign c = true) :
    normalize (c :: w) = c :: w := by
  have hone : signOf [c] = c := by
    rcases eq_of_isSign hc with h | h <;> rw [h] <;> rfl
  have hline := normalize_signed_word (v := []) (isSignRun_singleton hc) hw (by simp)
  rwa [List.append_nil, hone] at hline

theorem SignedNumeral.normalize_eq {s : Text} {n : Int} (h : SignedNumeral s n) :
    normalize s = s := by
  cases h with
  | plain hds => exact (Text.isWord_of_isNumeral hds).normalize_eq
  | plus hds => exact (Text.isWord_of_isNumeral hds).normalize_sign rfl
  | minus hds => exact (Text.isWord_of_isNumeral hds).normalize_sign rfl

/-! ## Lines -/

variable {mode : PowerMode} {env : Environment} {line x : Text} {n : Int}

theorem resultOf_of_numeral (h : SignedNumeral (normalize line) n) :
    resultOf mode env line = .ok (.value n) := by
  rw [resultOf, (Line.Says.number h).classify_eq (isNormal_normalize line)]
  rfl

theorem resultOf_of_assigned_numeral {r : Text} (hx : x.isName = true) (hr : SignedNumeral r n)
    (hline : normalize line = x ++ '=' :: r) : resultOf mode env line = .ok (.assigned x n) := by
  have hsays : Line.Says (normalize line) (.ok (.assignment x (.number n))) :=
    hline ▸ .assignNumber hx hr
  rw [resultOf, hsays.classify_eq (isNormal_normalize line)]
  rfl

theorem resultOf_of_lookup (hx : (normalize line).isName = true) :
    resultOf mode env line = (env.lookup (normalize line)).map .value := by
  rw [resultOf, (Line.Says.lookup hx).classify_eq (isNormal_normalize line)]
  rfl

end LineCalculator
