import LineCalculator.Calculator
import LineCalculator.Proofs.Outcome.Faults

/-!
# Lines of white space

A line of white space is no command, and holds nothing that a rule of the calculator knows: no
boundary, no letter, no digit. If it is blank, it says nothing; and if not, the normal form is the
line without the blanks at its ends, one word that is neither a name nor a numeral. Such a line is
an expression of one unknown token (`reports_of_white`).
-/

set_option autoImplicit false

namespace LineCalculator

theorem isBoundary_of_isWhiteSpace {c : Char} (h : isWhiteSpace c = true) : isBoundary c = false := by
  cases hb : isBoundary c with
  | false => rfl
  | true =>
    have hwhite : isWhiteSpace c = false := by
      rcases eq_of_isBoundary hb with hc | hc | hc | hc | hc | hc | hc | hc <;> rw [hc] <;> rfl
    exact absurd h (by simp [hwhite])

section

variable {s : Text} (hne : s ≠ []) (hs : ∀ c ∈ s, isWhiteSpace c = true)

include hne hs

/-- Such a text is not made of characters of any class that leaves white space out. -/
theorem Text.all_of_white {p : Char → Bool} (hp : ∀ c, p c = true → isWhiteSpace c = false) :
    s.all p = false := by
  obtain ⟨c, hc⟩ := List.exists_mem_of_ne_nil s hne
  refine List.all_eq_false.2 ⟨c, hc, ?_⟩
  intro hpc
  exact absurd (hs c hc) (by simp [hp c hpc])

theorem Text.all_isAlpha_of_white : s.all Char.isAlpha = false :=
  all_of_white hne hs fun _ hc => isWhiteSpace_of_isAlpha hc

theorem Text.all_isDigit_of_white : s.all Char.isDigit = false :=
  all_of_white hne hs fun _ hc => isWhiteSpace_of_isDigit hc

theorem Text.isBareWord_of_white : s.isBareWord = false := by
  have hall : s.all (fun c => c.isAlphanum || c == '_') = false := by
    refine all_of_white hne hs ?_
    intro c hc
    have hkind : (c.isAlpha = true ∨ c.isDigit = true) ∨ c = '_' := by
      simpa [Char.isAlphanum] using hc
    rcases hkind with (halpha | hdigit) | hunderscore
    · exact isWhiteSpace_of_isAlpha halpha
    · exact isWhiteSpace_of_isDigit hdigit
    · rw [hunderscore]
      rfl
  rw [isBareWord, hall, Bool.and_false]

/-- It fits no other shape than that of an expression. -/
theorem Line.says_of_white : Says s (.ok (.expression s)) := by
  have hboundary : ∀ c, isBoundary c = true → c ∉ s := by
    intro c hc hmem
    exact absurd hc (by simp [isBoundary_of_isWhiteSpace (hs c hmem)])
  refine .expression hne (hboundary '=' rfl) ?_ (Text.isBareWord_of_white hne hs)
  intro n hn
  cases hn with
  | plain hds =>
    have hall : s.all Char.isDigit = true := List.all_eq_true.2 (Text.isNumeral_iff.1 hds).2
    exact absurd hall (by simp [Text.all_isDigit_of_white hne hs])
  | plus _ => exact hboundary '+' rfl List.mem_cons_self
  | minus _ => exact hboundary '-' rfl List.mem_cons_self

theorem Postfix.ofText_of_white : ofText s = .error (.unknownToken s) := by
  have hfree : ∀ c ∈ s, isBoundary c = false := fun c hc => isBoundary_of_isWhiteSpace (hs c hc)
  have hpiece : Token.ofPiece s = .unknown s := by
    rw [Token.ofPiece_of_not_isBoundary hfree, Token.ofWord, Text.all_isAlpha_of_white hne hs,
      Text.all_isDigit_of_white hne hs]
    rfl
  have hscan : Token.scan s = [.unknown s] := by
    have hword := Token.scan_append hne hfree Text.atBoundary_nil
    rwa [List.append_nil, hpiece] at hword
  rw [ofText, hscan]
  rfl

end

theorem normalize_of_white {line : Text} (h : ∀ c ∈ line, isWhiteSpace c = true) :
    normalize line = line.trimBlanks := by
  have hfree : ∀ c ∈ line, isBoundary c = false := fun c hc => isBoundary_of_isWhiteSpace (h c hc)
  have hword := normalize_append_word hfree Text.atBoundary_nil
  rwa [List.append_nil, normalize_nil, List.append_nil] at hword

/-- **A line of white space that is not blank** is an expression of one unknown token, which is
    what is left between the blanks. -/
theorem reports_of_white (mode : PowerMode) (env : Environment) {line : Text}
    (h : ∀ c ∈ line, isWhiteSpace c = true) (hne : line.trimBlanks ≠ []) :
    Reports mode env line (.unknownToken line.trimBlanks) := by
  have htrim : ∀ c ∈ line.trimBlanks, isWhiteSpace c = true :=
    fun c hc => h c (Text.mem_of_mem_trim hc)
  have hnormal := isNormal_normalize line
  rw [normalize_of_white h] at hnormal
  rw [reports_iff, normalize_of_white h]
  refine ⟨?_, Or.inl (Postfix.ofText_of_white hne htrim)⟩
  exact (Line.classify_eq_iff hnormal _).2 (Line.says_of_white hne htrim)

namespace Calculator

theorem respond_of_error {c : Calculator} {line : Text} {e : LineError}
    (hcommand : Command.ofLine? line = none) (h : (evaluate c.mode c.env line).1 = .error e) :
    c.respond line = (.failed e, c) := by
  rw [fst_evaluate] at h
  rw [respond_of_ofLine? hcommand, h]
  rfl

theorem respond_of_white {line : Text} (h : ∀ c ∈ line, isWhiteSpace c = true)
    (hne : line.trimBlanks ≠ []) (c : Calculator) :
    c.respond line = (.failed (.invalidExpression (.unknownToken line.trimBlanks)), c) := by
  have hword : line.trimWhiteSpace = [] := Text.trim_eq_nil_iff.2 h
  have hcommand : Command.ofLine? line = none := by
    rw [Command.ofLine?, hword]
    rfl
  exact respond_of_error hcommand (reports_of_white c.mode c.env h hne)

end Calculator

end LineCalculator
