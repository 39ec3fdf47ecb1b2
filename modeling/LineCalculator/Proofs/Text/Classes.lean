import LineCalculator.Text.Ascii

/-!
# The classes of characters exclude each other

Letters, digits, blanks and boundaries are four disjoint classes, and the signs are among the
boundaries. `Boundary` and `Text/Ascii` say so from the small class, whose members can be gone
through; here are the statements about a letter, a digit or any other character that is given.

Of numerals and names it mostly matters that they are **words**: neither a blank nor a boundary is
in them, so no stage before the evaluation looks into them.
-/

set_option autoImplicit false

namespace LineCalculator

variable {c : Char}

theorem isBoundary_of_isAlpha (h : c.isAlpha = true) : isBoundary c = false := by
  cases hb : isBoundary c with
  | false => rfl
  | true => exact absurd h (by simp [isAlpha_of_isBoundary hb])

theorem isBoundary_of_isDigit (h : c.isDigit = true) : isBoundary c = false := by
  cases hb : isBoundary c with
  | false => rfl
  | true => exact absurd h (by simp [isDigit_of_isBoundary hb])

theorem isSign_of_not_isBoundary (h : isBoundary c = false) : isSign c = false := by
  cases hs : isSign c with
  | false => rfl
  | true => exact absurd (isBoundary_of_isSign hs) (by simp [h])

/-- The two ranges of letters lie above the digits. -/
theorem isAlpha_of_isDigit (h : c.isDigit = true) : c.isAlpha = false := by
  obtain ⟨-, hle⟩ := Bool.and_eq_true_iff.1 h
  have hle : c.val ≤ '9'.val := of_decide_eq_true hle
  cases ha : c.isAlpha with
  | false => rfl
  | true =>
    rcases Bool.or_eq_true_iff.1 ha with hletter | hletter
    · have hupper : 'A'.val ≤ c.val ∧ c.val ≤ 'Z'.val := of_decide_eq_true hletter
      exact absurd (UInt32.le_trans hupper.1 hle) (by decide)
    · obtain ⟨hge, -⟩ := Bool.and_eq_true_iff.1 hletter
      have hge : 'a'.val ≤ c.val := of_decide_eq_true hge
      exact absurd (UInt32.le_trans hge hle) (by decide)

theorem isDigit_of_isAlpha (h : c.isAlpha = true) : c.isDigit = false := by
  cases hd : c.isDigit with
  | false => rfl
  | true => exact absurd h (by simp [isAlpha_of_isDigit hd])

/-- No text is both a name and a numeral. -/
theorem Text.isNumeral_of_isName {s : Text} (h : s.isName = true) : s.isNumeral = false := by
  cases hn : s.isNumeral with
  | false => rfl
  | true =>
    obtain ⟨hne, hletters⟩ := isName_iff.1 h
    obtain ⟨c, hc⟩ := List.exists_mem_of_ne_nil s hne
    have hdigit := (isNumeral_iff.1 hn).2 c hc
    exact absurd hdigit (by simp [isDigit_of_isAlpha (hletters c hc)])

/-! ## Words -/

namespace Text

/-- Not empty, and without blanks and boundaries. -/
def IsWord (w : Text) : Prop := w ≠ [] ∧ ∀ c ∈ w, isBlank c = false ∧ isBoundary c = false

theorem isWord_of_isNumeral {ds : Text} (h : ds.isNumeral = true) : ds.IsWord := by
  obtain ⟨hne, hall⟩ := isNumeral_iff.1 h
  refine ⟨hne, ?_⟩
  intro c hc
  exact ⟨isBlank_of_isDigit (hall c hc), isBoundary_of_isDigit (hall c hc)⟩

theorem isWord_of_isName {x : Text} (h : x.isName = true) : x.IsWord := by
  obtain ⟨hne, hall⟩ := isName_iff.1 h
  refine ⟨hne, ?_⟩
  intro c hc
  exact ⟨isBlank_of_isAlpha (hall c hc), isBoundary_of_isAlpha (hall c hc)⟩

theorem isWord_of_isBareWord {w : Text} (h : w.isBareWord = true) : w.IsWord := by
  obtain ⟨hne, hall⟩ := Bool.and_eq_true_iff.1 h
  refine ⟨by simpa using hne, ?_⟩
  intro c hc
  have hkind : (c.isAlpha = true ∨ c.isDigit = true) ∨ c = '_' := by
    simpa [Char.isAlphanum] using List.all_eq_true.1 hall c hc
  rcases hkind with (hletter | hdigit) | hunderscore
  · exact ⟨isBlank_of_isAlpha hletter, isBoundary_of_isAlpha hletter⟩
  · exact ⟨isBlank_of_isDigit hdigit, isBoundary_of_isDigit hdigit⟩
  · subst hunderscore
    exact ⟨rfl, rfl⟩

theorem isBareWord_of_isName {x : Text} (h : x.isName = true) : x.isBareWord = true := by
  obtain ⟨hne, hall⟩ := isName_iff.1 h
  refine Bool.and_eq_true_iff.2 ⟨by simpa using hne, List.all_eq_true.2 ?_⟩
  intro c hc
  simp [Char.isAlphanum, hall c hc]

namespace IsWord

variable {w : Text}

theorem isBoundary_of_mem (h : w.IsWord) : ∀ c ∈ w, isBoundary c = false := by
  intro c hc
  exact (h.2 c hc).2

theorem exists_cons (h : w.IsWord) :
    ∃ c u, w = c :: u ∧ isBlank c = false ∧ isSign c = false := by
  obtain ⟨c, u, rfl⟩ := List.exists_cons_of_ne_nil h.1
  obtain ⟨hblank, hbound⟩ := h.2 c List.mem_cons_self
  exact ⟨c, u, rfl, hblank, isSign_of_not_isBoundary hbound⟩

theorem not_mem (h : w.IsWord) {c : Char} (hc : isBoundary c = true) : c ∉ w := by
  intro hmem
  exact absurd (h.isBoundary_of_mem c hmem) (by simp [hc])

theorem not_mem_of_isBlank (h : w.IsWord) {c : Char} (hc : isBlank c = true) : c ∉ w := by
  intro hmem
  exact absurd (h.2 c hmem).1 (by simp [hc])

end IsWord

end Text

end LineCalculator
