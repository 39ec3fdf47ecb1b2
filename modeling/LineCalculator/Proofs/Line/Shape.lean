import LineCalculator.Line
import LineCalculator.Proofs.Text.Classes
import Mathlib.Data.List.TakeWhile

/-!
# The shape of an expression line

Of the shapes of a line the expression is what is left when no other fits, so a text is shown to be
one by what it holds: a boundary that is no equals sign, somewhere behind its first character or an
opening parenthesis at it. No number, name or bare word has that.

The other way round, a line that was classified as an expression is handed on whole: for a text
without blanks at its ends the trimming of `classify` is the identity.
-/

set_option autoImplicit false

namespace LineCalculator

namespace Decimal

/-! ## Texts without a sign -/

theorem dropSign_cons {c : Char} {u : Text} (hsign : isSign c = false) :
    dropSign (c :: u) = c :: u := by
  rw [dropSign, if_neg (by simp [hsign])]

/-- Only a sign at the front lets a signed numeral hold a boundary. -/
theorem readInt?_eq_none {c : Char} {u : Text} (hsign : isSign c = false)
    (hb : ∃ b ∈ c :: u, isBoundary b = true) : readInt? (c :: u) = none := by
  obtain ⟨b, hmem, hbound⟩ := hb
  have hnum : Text.isNumeral (c :: u) ≠ true := by
    intro h
    exact (Text.isWord_of_isNumeral h).not_mem hbound hmem
  rw [readInt?, dropSign_cons hsign, if_neg hnum]

theorem readInt?_numeral {ds : Text} (hds : ds.isNumeral = true) :
    readInt? ds = some (numeralValue ds : Int) := by
  obtain ⟨c, u, rfl, -, hsign⟩ := (Text.isWord_of_isNumeral hds).exists_cons
  have hminus : (c :: u).head? ≠ some '-' := by
    intro h
    obtain rfl : c = '-' := Option.some.inj h
    exact absurd hsign (by decide)
  rw [readInt?, dropSign_cons hsign, if_pos hds]
  show some (if (c :: u).head? = some '-' then _ else _) = _
  rw [if_neg hminus]

theorem readInt?_name {x : Text} (hx : x.isName = true) : readInt? x = none := by
  obtain ⟨c, u, rfl, -, hsign⟩ := (Text.isWord_of_isName hx).exists_cons
  rw [readInt?, dropSign_cons hsign, if_neg (by simp [Text.isNumeral_of_isName hx])]

end Decimal

/-! ## Classification -/

namespace Line

/-- What has the shape of an integer is read as one. -/
theorem isSome_readInt? (s : Text) : (Decimal.readInt? s).isSome = isSignedInteger s := by
  rw [Decimal.readInt?, isSignedInteger]
  cases (Decimal.dropSign s).isNumeral <;> rfl

theorem ofWords_of_readInt? {s : Text} {n : Int} (h : Decimal.readInt? s = some n) :
    ofWords s = .ok (.number n) := by
  have hshape : isSignedInteger s = true := by rw [← isSome_readInt?, h, Option.isSome_some]
  rw [ofWords, if_pos hshape, h]

/-- **The arm behind the reading is dead**: a text in the shape of an integer is a number line. -/
theorem ofWords_of_isSignedInteger {s : Text} (h : isSignedInteger s = true) :
    ∃ n, ofWords s = .ok (.number n) := by
  rw [← isSome_readInt?] at h
  obtain ⟨n, hn⟩ := Option.isSome_iff_exists.1 h
  exact ⟨n, ofWords_of_readInt? hn⟩

/-- Of a text that is no integer, the letters and digits decide. -/
theorem ofWords_of_no_integer {s : Text} (h : Decimal.readInt? s = none) :
    ofWords s =
      if s.isBareWord then
        if s.isName then .ok (.lookup s) else .error (.invalidIdentifier s)
      else .ok (.expression s) := by
  have hshape : ¬ isSignedInteger s = true := by rw [← isSome_readInt?, h]; simp
  rw [ofWords, if_neg hshape]

/-- Without an equals sign, the words of the line decide. -/
theorem classify_of_not_mem {s : Text} (htrim : s.trimBlanks = s) (hne : s ≠ [])
    (heq : '=' ∉ s) : classify s = ofWords s := by
  have hdrop : s.dropWhile (· != '=') = [] := by
    refine List.dropWhile_eq_nil_iff.2 fun c hc => ?_
    have : c ≠ '=' := fun h => heq (h ▸ hc)
    simpa using this
  rw [classify, htrim, ofTrimmed, if_neg (by simpa using hne), hdrop]

theorem classify_eq_expression {c : Char} {u : Text} (htrim : Text.trimBlanks (c :: u) = c :: u)
    (heq : '=' ∉ c :: u) (hsign : isSign c = false) (hb : ∃ b ∈ c :: u, isBoundary b = true) :
    classify (c :: u) = .ok (.expression (c :: u)) := by
  obtain ⟨b, hmem, hbound⟩ := hb
  have hbare : Text.isBareWord (c :: u) ≠ true := by
    intro h
    exact (Text.isWord_of_isBareWord h).not_mem hbound hmem
  rw [classify_of_not_mem htrim (List.cons_ne_nil c u) heq,
    ofWords_of_no_integer (Decimal.readInt?_eq_none hsign ⟨b, hmem, hbound⟩), if_neg hbare]

theorem classify_numeral {ds : Text} (htrim : ds.trimBlanks = ds) (hds : ds.isNumeral = true) :
    classify ds = .ok (.number (Decimal.numeralValue ds)) := by
  have hword := Text.isWord_of_isNumeral hds
  rw [classify_of_not_mem htrim hword.1 (hword.not_mem rfl),
    ofWords_of_readInt? (Decimal.readInt?_numeral hds)]

theorem classify_name {x : Text} (htrim : x.trimBlanks = x) (hx : x.isName = true) :
    classify x = .ok (.lookup x) := by
  have hword := Text.isWord_of_isName hx
  rw [classify_of_not_mem htrim hword.1 (hword.not_mem rfl),
    ofWords_of_no_integer (Decimal.readInt?_name hx), if_pos (Text.isBareWord_of_isName hx),
    if_pos hx]

/-- What is classified as an expression is the line itself. -/
theorem eq_of_classify_eq_expression {s text : Text} (htrim : s.trimBlanks = s)
    (h : classify s = .ok (.expression text)) : text = s := by
  rw [classify, htrim, ofTrimmed] at h
  split at h
  · exact absurd h (by simp)
  · split at h
    · -- A line with an equals sign is an assignment or an error.
      unfold ofSides at h
      split at h
      · dsimp only at h
        split at h <;> exact absurd h (by simp)
      · exact absurd h (by simp)
    · unfold ofWords at h
      split at h
      · split at h
        · exact absurd h (by simp)
        · exact (Line.expression.inj (Except.ok.inj h)).symm
      · split at h
        · split at h <;> exact absurd h (by simp)
        · exact (Line.expression.inj (Except.ok.inj h)).symm

end Line

end LineCalculator
