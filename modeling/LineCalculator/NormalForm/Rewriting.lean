import LineCalculator.NormalForm

/-!
# Normalizing by rewriting

The normal form again, as rules that change one place of a text at a time and say nothing about the
order in which places are changed: two signs side by side become one, and a blank beside a boundary
or at an end of the text goes.

A text is normal when it holds no such place. `IsNormal` says this of neighbours and of the ends,
without the rules and without `normalize`.
-/

set_option autoImplicit false

namespace LineCalculator

/-- Two signs and the one that they mean. -/
inductive SignRule : Char → Char → Char → Prop
  | plusPlus : SignRule '+' '+' '+'
  | minusMinus : SignRule '-' '-' '+'
  | plusMinus : SignRule '+' '-' '-'
  | minusPlus : SignRule '-' '+' '-'

/-- One change at one place. -/
inductive Rewrites : Text → Text → Prop
  | signs (u v : Text) {a b c : Char} :
    SignRule a b c → Rewrites (u ++ a :: b :: v) (u ++ c :: v)
  | blankBefore (u v : Text) {b c : Char} :
    isBlank b = true → isBoundary c = true → Rewrites (u ++ b :: c :: v) (u ++ c :: v)
  | blankBehind (u v : Text) {b c : Char} :
    isBlank b = true → isBoundary c = true → Rewrites (u ++ c :: b :: v) (u ++ c :: v)
  | blankFirst (s : Text) {b : Char} : isBlank b = true → Rewrites (b :: s) s
  | blankLast (s : Text) {b : Char} : isBlank b = true → Rewrites (s ++ [b]) s

/-- Whether two characters may not stand side by side in a normal text. -/
def clash (a b : Char) : Bool :=
  (isSign a && isSign b) || (isBlank a && isBoundary b) || (isBoundary a && isBlank b)

/-- No clash anywhere, and no blank at an end. -/
structure IsNormal (s : Text) : Prop where
  no_clash : ∀ u a b v, s = u ++ a :: b :: v → clash a b = false
  first : ∀ b t, s = b :: t → isBlank b = false
  last : ∀ t b, s = t ++ [b] → isBlank b = false

/-- Every change makes the text one character shorter, so no sequence of changes is endless. -/
theorem Rewrites.length_eq {s t : Text} (h : Rewrites s t) : s.length = t.length + 1 := by
  cases h <;> simp <;> omega

/-- A normal text has no place to change. -/
theorem IsNormal.not_rewrites {s t : Text} (h : IsNormal s) : ¬ Rewrites s t := by
  intro hr
  cases hr with
  | signs u v hrule =>
    have := h.no_clash _ _ _ _ rfl
    cases hrule <;> simp [clash, isSign] at this
  | blankBefore u v hb hc =>
    have := h.no_clash _ _ _ _ rfl
    simp [clash, hb, hc] at this
  | blankBehind u v hb hc =>
    have := h.no_clash _ _ _ _ rfl
    simp [clash, hb, hc] at this
  | blankFirst t hb =>
    have := h.first _ _ rfl
    simp [hb] at this
  | blankLast t hb =>
    have := h.last _ _ rfl
    simp [hb] at this

end LineCalculator
