import LineCalculator.Text.Ascii

/-!
# Unicode white space

The characters with the Unicode property `White_Space`, 25 of them. Only two decisions look at
this set: whether a line is a command, and whether a prompt skips a line. The ASCII blanks are
among them (`isWhiteSpace_of_isBlank`), so a line that is blank inside the calculator is also
skipped by a prompt; the converse fails, at the no-break space for one.
-/

set_option autoImplicit false

namespace LineCalculator

/-- The code points of `White_Space` as closed ranges, in ascending order. -/
def whiteSpaceRanges : List (Nat × Nat) :=
  [(0x9, 0xD), (0x20, 0x20), (0x85, 0x85), (0xA0, 0xA0), (0x1680, 0x1680), (0x2000, 0x200A),
   (0x2028, 0x2029), (0x202F, 0x202F), (0x205F, 0x205F), (0x3000, 0x3000)]

/-- Whether a character has the property `White_Space`. -/
def isWhiteSpace (c : Char) : Bool :=
  whiteSpaceRanges.any fun r => r.1 ≤ c.toNat && c.toNat ≤ r.2

/-- The text without the white space at its two ends. -/
def Text.trimWhiteSpace (s : Text) : Text := s.trim isWhiteSpace

/-- Every blank is white space. -/
theorem isWhiteSpace_of_isBlank {c : Char} (h : isBlank c = true) : isWhiteSpace c = true := by
  simp only [isBlank, Bool.or_eq_true, beq_iff_eq] at h
  rcases h with (((rfl | rfl) | rfl) | rfl) | rfl <;> decide

/-- The ranges of white space leave out all that is printable in ASCII. -/
theorem isWhiteSpace_of_printable {c : Char} (hlow : 33 ≤ c.toNat) (hhigh : c.toNat ≤ 126) :
    isWhiteSpace c = false := by
  have hgap : ∀ r ∈ whiteSpaceRanges, r.2 < 33 ∨ 126 < r.1 := by decide
  refine List.any_eq_false.2 ?_
  intro r hr hle
  obtain ⟨hstart, hstop⟩ : r.1 ≤ c.toNat ∧ c.toNat ≤ r.2 := by simpa using hle
  have := hgap r hr
  omega

theorem isWhiteSpace_of_isAlpha {c : Char} (h : c.isAlpha = true) : isWhiteSpace c = false := by
  rcases Bool.or_eq_true_iff.1 h with hupper | hlower
  · have hval : 'A'.val ≤ c.val ∧ c.val ≤ 'Z'.val := of_decide_eq_true hupper
    have hge : 65 ≤ c.toNat := UInt32.le_iff_toNat_le.1 hval.1
    have hle : c.toNat ≤ 90 := UInt32.le_iff_toNat_le.1 hval.2
    exact isWhiteSpace_of_printable (by omega) (by omega)
  · obtain ⟨hge, hle⟩ := Bool.and_eq_true_iff.1 hlower
    have hge : 97 ≤ c.toNat := UInt32.le_iff_toNat_le.1 (of_decide_eq_true hge)
    have hle : c.toNat ≤ 122 := UInt32.le_iff_toNat_le.1 (of_decide_eq_true hle)
    exact isWhiteSpace_of_printable (by omega) (by omega)

theorem isWhiteSpace_of_isDigit {c : Char} (h : c.isDigit = true) : isWhiteSpace c = false := by
  obtain ⟨hge, hle⟩ := Bool.and_eq_true_iff.1 h
  have hge : 48 ≤ c.toNat := UInt32.le_iff_toNat_le.1 (of_decide_eq_true hge)
  have hle : c.toNat ≤ 57 := UInt32.le_iff_toNat_le.1 (of_decide_eq_true hle)
  exact isWhiteSpace_of_printable (by omega) (by omega)

/-- The no-break space is white space but no blank. -/
example : isWhiteSpace '\u00a0' = true ∧ isBlank '\u00a0' = false := by decide

end LineCalculator
