import LineCalculator.Text.Lines

/-!
# Cutting a text into lines

`Text.lines` is a fold from the right. From the left a text is either its last line, or a line, its
line feed and the rest (`Text.line_induction`); the fold gives the line back in both cases, except
that the line feed takes one carriage return before it along (`lines_append_newline`).
-/

set_option autoImplicit false

namespace LineCalculator.Text

/-- Induction over a text line by line. -/
@[elab_as_elim]
theorem line_induction {motive : Text → Prop} (last : ∀ l, '\n' ∉ l → motive l)
    (line : ∀ l s, '\n' ∉ l → motive s → motive (l ++ '\n' :: s)) (s : Text) : motive s := by
  by_cases h : '\n' ∈ s
  · obtain ⟨l, t, hs, hl⟩ := List.eq_append_cons_of_mem h
    rw [hs]
    exact line l t hl (line_induction last line t)
  · exact last s h
termination_by s.length
decreasing_by
  rw [hs, List.length_append, List.length_cons]
  omega

/-- A line without the carriage return at its right end. -/
def withoutReturn (l : Text) : Text := if l.getLast? = some '\r' then l.dropLast else l

/-- Between two ends of lines every character joins its line. -/
theorem foldr_extend_of_not_mem {l : Text} (hl : '\n' ∉ l) (w : Text) (ws : List Text) :
    l.foldr LineScan.extend ⟨false, w :: ws⟩ = ⟨false, (l ++ w) :: ws⟩ := by
  induction l with
  | nil => rfl
  | cons c l ih =>
    have hc : c ≠ '\n' := fun h => hl (h ▸ List.mem_cons_self)
    rw [List.foldr_cons, ih fun h => hl (List.mem_cons_of_mem c h)]
    simp [LineScan.extend, hc]

theorem lines_of_not_mem {l : Text} (hl : '\n' ∉ l) (hne : l ≠ []) : lines l = [l] := by
  obtain ⟨u, c, hu⟩ := l.eq_nil_or_concat.resolve_left hne
  rw [List.concat_eq_append] at hu
  rw [hu, List.mem_append, not_or, List.mem_singleton] at hl
  have hc : LineScan.extend c ⟨false, []⟩ = ⟨false, [[c]]⟩ := by
    simp [LineScan.extend, Ne.symm hl.2]
  rw [hu, lines, List.foldr_append, List.foldr_cons, List.foldr_nil, hc,
    foldr_extend_of_not_mem hl.1]

theorem lines_append_newline {l : Text} (hl : '\n' ∉ l) (s : Text) :
    lines (l ++ '\n' :: s) = l.withoutReturn :: lines s := by
  have hbreak : ('\n' :: s).foldr LineScan.extend ⟨false, []⟩ = ⟨true, [] :: lines s⟩ := by
    simp [LineScan.extend, lines]
  rw [lines, List.foldr_append, hbreak]
  rcases l.eq_nil_or_concat with hnil | ⟨u, c, hu⟩
  · rw [hnil]
    rfl
  · rw [List.concat_eq_append] at hu
    rw [hu, List.mem_append, not_or, List.mem_singleton] at hl
    rw [hu, List.foldr_append, List.foldr_cons, List.foldr_nil]
    by_cases hc : c = '\r'
    · have hreturn : LineScan.extend c ⟨true, [] :: lines s⟩ = ⟨false, [] :: lines s⟩ := by
        simp [LineScan.extend, hc]
      rw [hreturn, foldr_extend_of_not_mem hl.1]
      simp [withoutReturn, hc]
    · have hjoin : LineScan.extend c ⟨true, [] :: lines s⟩ = ⟨false, [c] :: lines s⟩ := by
        simp [LineScan.extend, Ne.symm hl.2, hc]
      rw [hjoin, foldr_extend_of_not_mem hl.1]
      simp [withoutReturn, hc]

theorem exists_withoutReturn (l : Text) :
    l = l.withoutReturn ∨ l = l.withoutReturn ++ ['\r'] := by
  unfold withoutReturn
  split
  · next h =>
    obtain ⟨u, hu⟩ := List.getLast?_eq_some_iff.1 h
    rw [hu, List.dropLast_concat]
    exact Or.inr rfl
  · exact Or.inl rfl

end LineCalculator.Text
