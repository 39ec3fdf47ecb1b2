import LineCalculator.Outcome
import LineCalculator.Proofs.NormalForm.Normality
import Mathlib.Logic.Relation

/-!
# Rewriting ends in the normal form

The rules of `Rewrites` overlap: in `+ - +` the blanks, or two of the signs once the blanks are
gone, may be taken first. That the choice does not matter is usually shown by joining each pair of
overlapping steps. Here `normalize` does the joining. No step changes the normal form of a text
(`Rewrites.normalize_eq`), and a text at which no rule applies is its own normal form
(`IsNormal.normalize_eq`). So whatever a sequence of steps ends in, it is the normal form of the
text that it started from.

Every step makes the text shorter, so every sequence ends.
-/

set_option autoImplicit false

namespace LineCalculator

open Relation (ReflTransGen)

/-! ## A step keeps the normal form -/

/-- The rules for signs are those by which `absorb` merges them. -/
theorem signRule_iff {a b c : Char} :
    SignRule a b c ↔ isSign a = true ∧ isSign b = true ∧ c = mergeSigns a b := by
  constructor
  · intro h
    cases h <;> exact ⟨rfl, rfl, rfl⟩
  · rintro ⟨ha, hb, rfl⟩
    rcases eq_of_isSign ha with rfl | rfl <;> rcases eq_of_isSign hb with rfl | rfl
    · exact .plusPlus
    · exact .plusMinus
    · exact .minusPlus
    · exact .minusMinus

/-- Of three signs, any two neighbours may be merged first. -/
theorem mergeSigns_assoc {a b c : Char} (ha : isSign a = true) (hb : isSign b = true)
    (hc : isSign c = true) : mergeSigns a (mergeSigns b c) = mergeSigns (mergeSigns a b) c := by
  rcases eq_of_isSign ha with rfl | rfl <;> rcases eq_of_isSign hb with rfl | rfl <;>
    rcases eq_of_isSign hc with rfl | rfl <;> rfl

/-- Two signs add what their merged sign adds. -/
theorem absorb_absorb_sign {a b : Char} (ha : isSign a = true) (hb : isSign b = true) (t : Text) :
    absorb a (absorb b t) = absorb (mergeSigns a b) t := by
  have hm : isSign (mergeSigns a b) = true := isSign_mergeSigns a b
  rcases t.noSign_or with hno | ⟨d, u, hdrop, hd⟩
  · rw [absorb_sign hb hno, absorb_sign_cons ha hb, absorb_sign hm hno]
  · rw [absorb_sign_of_dropWhile hb hd hdrop, absorb_sign_cons ha (isSign_mergeSigns b d),
      mergeSigns_assoc ha hb hd, absorb_sign_of_dropWhile hm hd hdrop]

theorem normalize_append_congr {s t : Text} (h : s.foldr absorb [] = t.foldr absorb [])
    (u : Text) : normalize (u ++ s) = normalize (u ++ t) := by
  rw [normalize, normalize, List.foldr_append, List.foldr_append, h]

/-- **No step changes the normal form.** -/
theorem Rewrites.normalize_eq {s t : Text} (h : Rewrites s t) : normalize s = normalize t := by
  cases h with
  | signs u v hrule =>
    obtain ⟨ha, hb, rfl⟩ := signRule_iff.1 hrule
    refine normalize_append_congr ?_ u
    exact absorb_absorb_sign ha hb (v.foldr absorb [])
  | blankBefore u v hb hc =>
    refine normalize_append_congr ?_ u
    exact absorb_of_isBlank_of_atBoundary hb (atBoundary_absorb hc (v.foldr absorb []))
  | blankBehind u v hb hc =>
    refine normalize_append_congr ?_ u
    exact absorb_of_isBoundary_congr hc (dropWhile_absorb_of_isBlank hb (v.foldr absorb []))
  | blankFirst s hb => exact normalize_cons_of_isBlank hb _
  | blankLast s hb =>
    have hlast : List.foldr absorb [] [_] = [] :=
      absorb_of_isBlank_of_atBoundary hb Text.atBoundary_nil
    have happend := normalize_append_congr (hlast.trans List.foldr_nil.symm) t
    rwa [List.append_nil] at happend

theorem normalize_eq_of_steps {s t : Text} (h : ReflTransGen Rewrites s t) :
    normalize s = normalize t := by
  induction h with
  | refl => rfl
  | tail _ hstep ih => rw [ih, hstep.normalize_eq]

/-! ## Texts at which no rule applies -/

/-- A text is normal as soon as no rule applies to it. -/
theorem isNormal_iff_not_rewrites {s : Text} : IsNormal s ↔ ∀ t, ¬ Rewrites s t := by
  constructor
  · intro h t
    exact h.not_rewrites
  · intro h
    refine ⟨?_, ?_, ?_⟩
    · intro u a b v hs
      subst hs
      by_contra hclash
      have hclash : clash a b = true := by simpa using hclash
      simp only [clash, Bool.or_eq_true, Bool.and_eq_true] at hclash
      rcases hclash with (⟨ha, hb⟩ | ⟨ha, hb⟩) | ⟨ha, hb⟩
      · exact h _ (.signs u v (signRule_iff.2 ⟨ha, hb, rfl⟩))
      · exact h _ (.blankBefore u v ha hb)
      · exact h _ (.blankBehind u v hb ha)
    · intro b t hs
      subst hs
      by_contra hb
      exact h _ (.blankFirst t (by simpa using hb))
    · intro t b hs
      subst hs
      by_contra hb
      exact h _ (.blankLast t (by simpa using hb))

/-- A character that clashes with nothing behind it is only put in front. -/
theorem absorb_eq_cons {c : Char} {s : Text} (hclash : ∀ d u, s = d :: u → clash c d = false)
    (hlast : s = [] → isBlank c = false) : absorb c s = c :: s := by
  cases s with
  | nil =>
    have hb : isBlank c = false := hlast rfl
    simp [absorb, hb]
  | cons d u =>
    have hd : clash c d = false := hclash d u rfl
    simp only [clash, Bool.or_eq_false_iff, Bool.and_eq_false_iff] at hd
    obtain ⟨⟨hsign, hblank⟩, hbound⟩ := hd
    by_cases hb : isBlank c = true
    · simp [absorb, hb, hblank.resolve_left (by simp [hb])]
    · by_cases hc : isBoundary c = true
      · have hdrop : (d :: u).dropWhile isBlank = d :: u := by
          rw [List.dropWhile_cons_of_neg (by simp [hbound.resolve_left (by simp [hc])])]
        by_cases hs : isSign c = true
        · simp [absorb, hb, hs, hdrop, hsign.resolve_left (by simp [hs])]
        · simp [absorb, hb, hs, hc, hdrop]
      · have hs : isSign c = false := isSign_of_not_isBoundary (by simpa using hc)
        simp [absorb, hb, hs, hc]

theorem foldr_absorb_of_no_clash {s : Text}
    (hclash : ∀ u a b v, s = u ++ a :: b :: v → clash a b = false)
    (hlast : ∀ t b, s = t ++ [b] → isBlank b = false) : s.foldr absorb [] = s := by
  induction s with
  | nil => rfl
  | cons c s ih =>
    have hfold : s.foldr absorb [] = s := by
      refine ih ?_ ?_
      · intro u a b v hs
        exact hclash (c :: u) a b v (by rw [hs, List.cons_append])
      · intro t b hs
        exact hlast (c :: t) b (by rw [hs, List.cons_append])
    rw [List.foldr_cons, hfold]
    refine absorb_eq_cons ?_ ?_
    · intro d u hs
      exact hclash [] c d u (by rw [hs, List.nil_append])
    · intro hs
      exact hlast [] c (by rw [hs, List.nil_append])

/-- **A normal text is its own normal form.** -/
theorem IsNormal.normalize_eq {s : Text} (h : IsNormal s) : normalize s = s := by
  rw [normalize, foldr_absorb_of_no_clash h.no_clash h.last]
  cases s with
  | nil => rfl
  | cons b t => rw [List.dropWhile_cons_of_neg (by simp [h.first b t rfl])]

theorem normalize_eq_self_iff {s : Text} : normalize s = s ↔ IsNormal s := by
  constructor
  · intro h
    rw [← h]
    exact isNormal_normalize s
  · intro h
    exact h.normalize_eq

/-! ## Sequences of steps -/

/-- Some sequence of steps ends, and it can only end in the normal form. -/
theorem steps_normalize (s : Text) : ReflTransGen Rewrites s (normalize s) := by
  by_cases h : IsNormal s
  · rw [h.normalize_eq]
  · rw [isNormal_iff_not_rewrites, not_forall] at h
    obtain ⟨t, ht⟩ := h
    have hstep : Rewrites s t := not_not.1 ht
    rw [hstep.normalize_eq]
    exact .head hstep (steps_normalize t)
termination_by s.length
decreasing_by
  have := hstep.length_eq
  omega

/-- As long as a sequence of steps goes on, every step has cost one character. -/
theorem length_add_of_steps {f : Nat → Text} {n : Nat}
    (h : ∀ m < n, Rewrites (f m) (f (m + 1))) : (f n).length + n = (f 0).length := by
  induction n with
  | zero => rfl
  | succ n ih =>
    have hn := ih fun m hm => h m (Nat.lt_succ_of_lt hm)
    have hstep := (h n (Nat.lt_succ_self n)).length_eq
    omega

/-- **Rewriting ends, and always in the normal form.** No sequence of steps has more of them than
    the text has characters; wherever it has come to, it can go on to the normal form; and it has
    arrived exactly if no rule applies any more. So the normal form is normal, the normal texts are
    those that `normalize` leaves as they are, and a line means what its normal form means. -/
theorem rewriting_ends_in_normalize (s : Text) :
    (∀ f : Nat → Text, f 0 = s → ∃ n ≤ s.length, ¬ Rewrites (f n) (f (n + 1))) ∧
    (∀ t, ReflTransGen Rewrites s t → ReflTransGen Rewrites t (normalize s) ∧
      ((∀ u, ¬ Rewrites t u) ↔ t = normalize s)) ∧
    IsNormal (normalize s) ∧
    (normalize s = s ↔ IsNormal s) ∧
    normalize (normalize s) = normalize s ∧
    ∀ mode env, evaluate mode env (normalize s) = evaluate mode env s := by
  have hidem : normalize (normalize s) = normalize s := (isNormal_normalize s).normalize_eq
  refine ⟨?_, ?_, isNormal_normalize s, normalize_eq_self_iff, hidem, ?_⟩
  · intro f hf
    by_contra hgo
    have hall : ∀ m < s.length + 1, Rewrites (f m) (f (m + 1)) := by
      intro m hm
      by_contra hstep
      exact hgo ⟨m, Nat.le_of_lt_succ hm, hstep⟩
    have hlen := length_add_of_steps hall
    rw [hf] at hlen
    omega
  · intro t ht
    rw [normalize_eq_of_steps ht]
    refine ⟨steps_normalize t, ?_⟩
    rw [← isNormal_iff_not_rewrites, ← normalize_eq_self_iff, eq_comm]
  · intro mode env
    exact evaluate_of_normalize_eq hidem mode env

end LineCalculator
