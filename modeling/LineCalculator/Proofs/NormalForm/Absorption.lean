import LineCalculator.Expr
import LineCalculator.NormalForm
import LineCalculator.Proofs.Token.Scan
import Mathlib.Data.List.DropRight

/-!
# What a text adds to a normal text

`normalize` absorbs a line from its right end, so every statement about it is one about what a
stretch of text does to the normal text behind it. Four stretches are all there is in an expression:
blanks, a word, a boundary, and a run of signs. Each has one equation here, for any text behind it.

Blanks at the left end of what is behind may still go, and whether they do is up to what comes next.
So the equations speak of `t.dropWhile isBlank` wherever the stretch looks at its neighbour, and
where a neighbour has to be known (`AtBoundary`, `NoSign`) the condition is on what stands behind
the blanks.
-/

set_option autoImplicit false

namespace LineCalculator

/-- Behind the blanks at its left end, the text does not start with a sign. -/
def Text.NoSign (t : Text) : Prop := ∀ c u, t.dropWhile isBlank = c :: u → isSign c = false

theorem Text.noSign_or (t : Text) :
    t.NoSign ∨ ∃ d u, t.dropWhile isBlank = d :: u ∧ isSign d = true := by
  by_cases h : ∃ d u, t.dropWhile isBlank = d :: u ∧ isSign d = true
  · exact Or.inr h
  · refine Or.inl ?_
    intro d u hdrop
    by_contra hd
    exact h ⟨d, u, hdrop, by simpa using hd⟩

/-- The one sign that a run of signs means: its minuses decide. -/
def signOf (s : Text) : Char := if s.count '-' % 2 = 0 then '+' else '-'

/-! ## Blanks -/

theorem Text.AtBoundary.dropWhile_isBlank {t : Text} (ht : t.AtBoundary) :
    t.dropWhile isBlank = t := by
  cases t with
  | nil => rfl
  | cons c u =>
    have hc : isBlank c = false := isBlank_of_isBoundary (ht c u rfl)
    rw [List.dropWhile_cons_of_neg (by simp [hc])]

/-- A blank adds nothing but blanks. -/
theorem dropWhile_absorb_of_isBlank {c : Char} (hc : isBlank c = true) (t : Text) :
    (absorb c t).dropWhile isBlank = t.dropWhile isBlank := by
  cases t with
  | nil => simp [absorb, hc]
  | cons d u => by_cases hd : isBoundary d = true <;> simp [absorb, hc, hd, List.dropWhile_cons]

theorem dropWhile_foldr_absorb_of_isBlank {u : Text} (hu : ∀ c ∈ u, isBlank c = true) (t : Text) :
    (u.foldr absorb t).dropWhile isBlank = t.dropWhile isBlank := by
  induction u with
  | nil => rfl
  | cons c u ih =>
    obtain ⟨hc, hu⟩ := List.forall_mem_cons.1 hu
    rw [List.foldr_cons, dropWhile_absorb_of_isBlank hc, ih hu]

/-- Blanks beside a boundary or at the right end of the line go at once. -/
theorem absorb_of_isBlank_of_atBoundary {c : Char} (hc : isBlank c = true) {t : Text}
    (ht : t.AtBoundary) : absorb c t = t := by
  cases t with
  | nil => simp [absorb, hc]
  | cons d u => simp [absorb, hc, ht d u rfl]

theorem foldr_absorb_of_isBlank {v t : Text} (hv : ∀ c ∈ v, isBlank c = true)
    (ht : t.AtBoundary) : v.foldr absorb t = t := by
  induction v with
  | nil => rfl
  | cons c v ih =>
    obtain ⟨hc, hv⟩ := List.forall_mem_cons.1 hv
    rw [List.foldr_cons, ih hv, absorb_of_isBlank_of_atBoundary hc ht]

/-! ## Words and boundaries -/

theorem foldr_absorb_of_not_isBlank {w : Text}
    (hw : ∀ c ∈ w, isBlank c = false ∧ isBoundary c = false) (t : Text) :
    w.foldr absorb t = w ++ t := by
  induction w with
  | nil => rfl
  | cons c w ih =>
    obtain ⟨⟨hb, hc⟩, hw⟩ := List.forall_mem_cons.1 hw
    rw [List.foldr_cons, ih hw]
    simp [absorb, hb, hc, isSign_of_not_isBoundary hc]

/-- A word stays as it is, and at the left end of a text it holds no blank that could go. -/
theorem Text.IsWord.foldr_absorb {w : Text} (hw : w.IsWord) (t : Text) :
    (w.foldr absorb t).dropWhile isBlank = w ++ t := by
  rw [foldr_absorb_of_not_isBlank hw.2]
  obtain ⟨c, u, rfl, hblank, -⟩ := hw.exists_cons
  rw [List.cons_append, List.dropWhile_cons_of_neg (by simp [hblank])]

/-- A boundary that is no sign drops the blanks behind it. -/
theorem absorb_of_isBoundary {c : Char} (hc : isBoundary c = true) (hs : isSign c = false)
    (t : Text) : absorb c t = c :: t.dropWhile isBlank := by
  simp [absorb, isBlank_of_isBoundary hc, hs, hc]

/-- A boundary looks past the blanks behind it. -/
theorem absorb_of_isBoundary_congr {c : Char} (hc : isBoundary c = true) {t t' : Text}
    (h : t.dropWhile isBlank = t'.dropWhile isBlank) : absorb c t = absorb c t' := by
  have hb : isBlank c = false := isBlank_of_isBoundary hc
  simp only [absorb, hb, hc, h, Bool.false_eq_true, if_false, if_true]

/-! ## Signs -/

theorem eq_of_isSign {c : Char} (h : isSign c = true) : c = '+' ∨ c = '-' := by
  simpa [isSign] using h

theorem isSign_mergeSigns (a b : Char) : isSign (mergeSigns a b) = true := by
  unfold mergeSigns
  split <;> rfl

theorem isSign_signOf (s : Text) : isSign (signOf s) = true := by
  unfold signOf
  split <;> rfl

theorem signOf_cons_of_isBlank {c : Char} (hc : isBlank c = true) (s : Text) :
    signOf (c :: s) = signOf s := by
  have hne : c ≠ '-' := by
    rintro rfl
    exact absurd hc (by decide)
  rw [signOf, signOf, List.count_cons_of_ne hne]

theorem signOf_of_isBlank {s : Text} (hs : ∀ c ∈ s, isBlank c = true) : signOf s = '+' := by
  induction s with
  | nil => rfl
  | cons c s ih =>
    obtain ⟨hc, hs⟩ := List.forall_mem_cons.1 hs
    rw [signOf_cons_of_isBlank hc, ih hs]

/-- Merging a sign with the sign of a run is the sign of the longer run. -/
theorem mergeSigns_signOf {c : Char} (hc : isSign c = true) (s : Text) :
    mergeSigns c (signOf s) = signOf (c :: s) := by
  rcases eq_of_isSign hc with rfl | rfl
  · rw [signOf, signOf, List.count_cons_of_ne (by decide)]
    split <;> rfl
  · rw [signOf, signOf, List.count_cons_self]
    rcases Nat.mod_two_eq_zero_or_one (s.count '-') with h | h
    · rw [if_pos h, if_neg (by omega)]
      rfl
    · rw [if_neg (by omega), if_pos (by omega)]
      rfl

theorem absorb_sign {c : Char} (hc : isSign c = true) {t : Text} (ht : t.NoSign) :
    absorb c t = c :: t.dropWhile isBlank := by
  have hb : isBlank c = false := isBlank_of_isBoundary (isBoundary_of_isSign hc)
  cases h : t.dropWhile isBlank with
  | nil => simp [absorb, hb, hc, h]
  | cons d u => simp [absorb, hb, hc, h, ht d u h]

theorem absorb_sign_of_dropWhile {c d : Char} {t u : Text} (hc : isSign c = true)
    (hd : isSign d = true) (h : t.dropWhile isBlank = d :: u) :
    absorb c t = mergeSigns c d :: u := by
  have hb : isBlank c = false := isBlank_of_isBoundary (isBoundary_of_isSign hc)
  simp [absorb, hb, hc, h, hd]

theorem absorb_sign_cons {c d : Char} (hc : isSign c = true) (hd : isSign d = true) (t : Text) :
    absorb c (d :: t) = mergeSigns c d :: t := by
  have hb : isBlank d = false := isBlank_of_isBoundary (isBoundary_of_isSign hd)
  exact absorb_sign_of_dropWhile hc hd (List.dropWhile_cons_of_neg (by simp [hb]))

/-- What a boundary makes of a text starts with a boundary, if not with the same one. -/
theorem atBoundary_absorb {c : Char} (hc : isBoundary c = true) (t : Text) :
    (absorb c t).AtBoundary := by
  by_cases hs : isSign c = true
  · rcases t.noSign_or with hno | ⟨d, u, hdrop, hd⟩
    · rw [absorb_sign hs hno]
      exact Text.atBoundary_cons hc _
    · rw [absorb_sign_of_dropWhile hs hd hdrop]
      exact Text.atBoundary_cons (isBoundary_of_isSign (isSign_mergeSigns c d)) _
  · rw [absorb_of_isBoundary hc (by simpa using hs)]
    exact Text.atBoundary_cons hc _

/-- **A run of signs becomes its one sign**, and drops the blanks behind it. The run is taken from
    its left end, so what the induction meets in front of it is the sign that the rest has become,
    or blanks if that was the last sign. -/
theorem foldr_absorb_signRun {m t : Text} (hm : IsSignRun m) (ht : t.NoSign) :
    m.foldr absorb t = signOf m :: t.dropWhile isBlank := by
  induction m with
  | nil =>
    obtain ⟨-, c, hc, -⟩ := hm
    exact absurd hc (by simp)
  | cons c m ih =>
    obtain ⟨hall, hex⟩ := hm
    obtain ⟨hc, hall⟩ := List.forall_mem_cons.1 hall
    rw [List.foldr_cons]
    by_cases hsign : ∃ d ∈ m, isSign d = true
    · rw [ih ⟨hall, hsign⟩]
      rcases hc with hc | hc
      · rw [absorb_sign_cons hc (isSign_signOf m), mergeSigns_signOf hc]
      · rw [signOf_cons_of_isBlank hc]
        exact absorb_of_isBlank_of_atBoundary hc
          (Text.atBoundary_cons (isBoundary_of_isSign (isSign_signOf m)) _)
    · have hblank : ∀ d ∈ m, isBlank d = true := by
        intro d hd
        rcases hall d hd with h | h
        · exact absurd ⟨d, hd, h⟩ hsign
        · exact h
      have hc : isSign c = true := by
        obtain ⟨d, hd, hds⟩ := hex
        rcases List.mem_cons.1 hd with rfl | hd
        · exact hds
        · exact absurd ⟨d, hd, hds⟩ hsign
      have hdrop := dropWhile_foldr_absorb_of_isBlank hblank t
      have hno : (m.foldr absorb t).NoSign := fun d u h => ht d u (hdrop ▸ h)
      rw [absorb_sign hc hno, hdrop, ← mergeSigns_signOf hc, signOf_of_isBlank hblank]
      rcases eq_of_isSign hc with rfl | rfl <;> rfl

/-- However an operator is spelled, it becomes its symbol. -/
theorem Operator.SpelledBy.foldr_absorb {o : Operator} {m t : Text} (hm : o.SpelledBy m)
    (ht : t.NoSign) : m.foldr absorb t = o.symbol :: t.dropWhile isBlank := by
  cases o with
  | add =>
    rw [foldr_absorb_signRun hm.1 ht, signOf, if_pos hm.2]
    rfl
  | sub =>
    rw [foldr_absorb_signRun hm.1 ht, signOf, if_neg (by rw [hm.2]; decide)]
    rfl
  | mul =>
    obtain rfl : m = ['*'] := hm
    exact absorb_of_isBoundary (by decide) (by decide) t
  | div =>
    obtain rfl : m = ['/'] := hm
    exact absorb_of_isBoundary (by decide) (by decide) t
  | pow =>
    obtain rfl : m = ['^'] := hm
    exact absorb_of_isBoundary (by decide) (by decide) t

/-! ## No blanks at the ends -/

theorem Text.trimEnd_eq_self {p : Char → Bool} {s : Text}
    (h : ∀ c, s.getLast? = some c → p c = false) : Text.trimEnd p s = s := by
  induction s with
  | nil => rfl
  | cons c s ih =>
    rw [Text.trimEnd_cons]
    cases s with
    | nil => simp [h c rfl]
    | cons d s =>
      rw [ih fun e he => h e (by rw [List.getLast?_cons_cons, he])]
      simp

/-- What is absorbed in front of a text leaves its right end as it is, or gives it one. -/
theorem isBlank_of_getLast?_absorb {c : Char} {t : Text}
    (ht : ∀ d, t.getLast? = some d → isBlank d = false) :
    ∀ d, (absorb c t).getLast? = some d → isBlank d = false := by
  have hdrop : ∀ d, (t.dropWhile isBlank).getLast? = some d → isBlank d = false := by
    intro d hd
    refine ht d ?_
    rw [← List.takeWhile_append_dropWhile (p := isBlank) (l := t), List.getLast?_append, hd]
    rfl
  intro d hd
  unfold absorb at hd
  split at hd
  · split at hd
    · exact absurd hd (by simp)
    · split at hd
      · exact ht d hd
      · exact ht d (by rwa [List.getLast?_cons_cons] at hd)
  · next hblank =>
    have hc : isBlank c = false := by simpa using hblank
    split at hd
    · split at hd
      · obtain rfl : c = d := by simpa using hd
        exact hc
      · next e u he =>
        rw [he] at hdrop
        split at hd
        · -- The merged sign is the right end only if nothing stands behind it.
          cases u with
          | nil =>
            obtain rfl : mergeSigns c e = d := by simpa using hd
            unfold mergeSigns
            split <;> rfl
          | cons f u => exact hdrop d (by rwa [List.getLast?_cons_cons] at hd ⊢)
        · exact hdrop d (by rwa [List.getLast?_cons_cons] at hd)
    · split at hd
      · cases hu : t.dropWhile isBlank with
        | nil =>
          obtain rfl : c = d := by simpa [hu] using hd
          exact hc
        | cons e u =>
          rw [hu, List.getLast?_cons_cons, ← hu] at hd
          exact hdrop d hd
      · cases t with
        | nil =>
          obtain rfl : c = d := by simpa using hd
          exact hc
        | cons e u => exact ht d (by rwa [List.getLast?_cons_cons] at hd)

theorem isBlank_of_getLast?_normalize {s : Text} :
    ∀ d, (normalize s).getLast? = some d → isBlank d = false := by
  have hfold : ∀ d, (s.foldr absorb []).getLast? = some d → isBlank d = false := by
    induction s with
    | nil =>
      intro d hd
      exact absurd hd (by simp)
    | cons c s ih => exact isBlank_of_getLast?_absorb ih
  intro d hd
  refine hfold d ?_
  rw [← List.takeWhile_append_dropWhile (p := isBlank) (l := s.foldr absorb []),
    List.getLast?_append, ← normalize, hd]
  rfl

/-- Trimming a normal form changes nothing. -/
theorem trimBlanks_normalize (s : Text) : (normalize s).trimBlanks = normalize s := by
  have hhead : (normalize s).dropWhile isBlank = normalize s := by
    rw [normalize, List.dropWhile_idempotent isBlank]
  rw [Text.trimBlanks, Text.trim, hhead, Text.trimEnd_eq_self isBlank_of_getLast?_normalize]

end LineCalculator
