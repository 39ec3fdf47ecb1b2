import LineCalculator.NormalForm.Rewriting
import LineCalculator.Proofs.NormalForm.Absorption
import Mathlib.Data.List.Chain

/-!
# Normal forms are normal

`normalize` is defined by what it does, and `IsNormal` says what a normal text looks like: no two
neighbours clash, and no blank stands at an end. Here is the bridge, `isNormal_normalize`.

While a line is absorbed only its left end may break the rule, since a blank there waits for its
neighbour. Between neighbours nothing ever clashes, so that part is an invariant of each single
`absorb`, and the two ends are seen to afterwards.
-/

set_option autoImplicit false

namespace LineCalculator

namespace Text

/-- No two neighbours clash. -/
def NoClash (s : Text) : Prop := s.IsChain fun a b => clash a b = false

variable {s : Text}

theorem NoClash.cons {c : Char} (hs : s.NoClash) (hc : ∀ d u, s = d :: u → clash c d = false) :
    NoClash (c :: s) := by
  cases s with
  | nil => exact List.isChain_singleton c
  | cons d u => exact List.isChain_cons_cons.2 ⟨hc d u rfl, hs⟩

theorem NoClash.dropWhile (hs : s.NoClash) (p : Char → Bool) : NoClash (s.dropWhile p) :=
  List.IsChain.suffix hs (List.dropWhile_suffix p)

/-- One sign may stand where another one stands. -/
theorem NoClash.replace_sign {c d : Char} (hs : NoClash (d :: s)) (hd : isSign d = true)
    (hc : isSign c = true) : NoClash (c :: s) := by
  obtain ⟨hhead, htail⟩ := List.isChain_cons.1 hs
  refine NoClash.cons htail ?_
  rintro e u rfl
  have hde : clash d e = false := hhead e rfl
  simpa [clash, hc, hd, isBoundary_of_isSign, isBlank_of_isBoundary] using hde

end Text

/-! ## The invariant -/

theorem isBlank_of_dropWhile {t u : Text} {d : Char} (h : t.dropWhile isBlank = d :: u) :
    isBlank d = false := by
  have hhead := List.head?_dropWhile_not isBlank t
  rw [h] at hhead
  simpa using hhead

theorem noClash_absorb (c : Char) {t : Text} (ht : t.NoClash) : (absorb c t).NoClash := by
  have hdrop := ht.dropWhile isBlank
  unfold absorb
  split
  · next hblank =>
    split
    · exact List.isChain_nil
    · next d u =>
      split
      · exact ht
      · next hd =>
        -- A blank is kept only in front of a word, and is no boundary itself.
        refine ht.cons ?_
        intro e w he
        obtain ⟨rfl, -⟩ := List.cons.inj he
        have hc : isBoundary c = false := by
          cases hb : isBoundary c with
          | false => rfl
          | true => exact absurd hblank (by simp [isBlank_of_isBoundary hb])
        simp [clash, hc, hd, isSign_of_not_isBoundary hc]
  · next hblank =>
    split
    · next hsign =>
      split
      · exact List.isChain_singleton c
      · next d u he =>
        rw [he] at hdrop
        -- The sign behind the blanks is replaced by the merged one, and nothing else moves.
        split
        · next hd => exact hdrop.replace_sign hd (isSign_mergeSigns c d)
        · next hd =>
          refine hdrop.cons ?_
          intro e w hw
          obtain ⟨rfl, -⟩ := List.cons.inj hw
          simp [clash, hblank, hd, isBlank_of_dropWhile he]
    · next hsign =>
      split
      · refine hdrop.cons ?_
        intro d u hd
        simp [clash, hblank, hsign, isBlank_of_dropWhile hd]
      · next hbound =>
        refine ht.cons ?_
        intro d u _
        simp [clash, hblank, hsign, hbound]

theorem noClash_normalize (s : Text) : (normalize s).NoClash := by
  have hfold : (s.foldr absorb []).NoClash := by
    induction s with
    | nil => exact List.isChain_nil
    | cons c s ih => exact noClash_absorb c ih
  exact hfold.dropWhile isBlank

/-- **Normal forms are normal.** -/
theorem isNormal_normalize (s : Text) : IsNormal (normalize s) where
  no_clash := by
    intro u a b v h
    have hchain := noClash_normalize s
    rw [h] at hchain
    exact (List.isChain_append_cons_cons.1 hchain).2.1
  first := by
    intro b t h
    exact isBlank_of_dropWhile h
  last := by
    intro t b h
    refine isBlank_of_getLast?_normalize (s := s) b ?_
    rw [h, List.getLast?_concat]

end LineCalculator
