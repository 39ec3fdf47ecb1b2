import LineCalculator.Proofs.Line.Shape
import LineCalculator.Proofs.NormalForm.Normality
import LineCalculator.Proofs.Outcome.Success

/-!
# Assignment lines

The first equals sign cuts a line in two. In a normal text no blank stands beside it, so the two
sides need no trimming, and an assignment is read off the text as it is: a name, an equals sign, and
a right-hand side that is either a number or the exact text of a variable
(`eq_append_of_classify_eq_assignment`).

The other direction is for lines that are given as they were typed. What stands before the equals
sign and what stands behind it are brought to their normal forms separately
(`normalize_assignment`), because an equals sign is a boundary and no sign.
-/

set_option autoImplicit false

namespace LineCalculator

/-! ## Texts without blanks at their ends -/

theorem Text.trimBlanks_eq_self {s : Text} (hfirst : ∀ b t, s = b :: t → isBlank b = false)
    (hlast : ∀ t b, s = t ++ [b] → isBlank b = false) : s.trimBlanks = s := by
  have hdrop : s.dropWhile isBlank = s := by
    cases s with
    | nil => rfl
    | cons b t => rw [List.dropWhile_cons_of_neg (by simp [hfirst b t rfl])]
  rw [Text.trimBlanks, Text.trim, hdrop]
  refine Text.trimEnd_eq_self ?_
  intro b hb
  obtain ⟨t, rfl⟩ := List.getLast?_eq_some_iff.1 hb
  exact hlast t b rfl

theorem Text.IsWord.trimBlanks {w : Text} (hw : w.IsWord) : w.trimBlanks = w := by
  refine Text.trimBlanks_eq_self ?_ ?_
  · rintro b t rfl
    exact (hw.2 b List.mem_cons_self).1
  · rintro t b rfl
    exact (hw.2 b (by simp)).1

theorem IsNormal.trimBlanks {s : Text} (h : IsNormal s) : s.trimBlanks = s :=
  Text.trimBlanks_eq_self h.first h.last

/-- Neither side of a boundary in a normal text has blanks at its ends. -/
theorem IsNormal.trimBlanks_sides {l r : Text} {c : Char} (h : IsNormal (l ++ c :: r))
    (hc : isBoundary c = true) : l.trimBlanks = l ∧ r.trimBlanks = r := by
  constructor
  · refine Text.trimBlanks_eq_self ?_ ?_
    · rintro b t rfl
      exact h.first b _ rfl
    · rintro t b rfl
      have hclash := h.no_clash t b c r (by simp)
      simp only [clash, hc, Bool.or_eq_false_iff, Bool.and_true] at hclash
      exact hclash.1.2
  · refine Text.trimBlanks_eq_self ?_ ?_
    · rintro b t rfl
      have hclash := h.no_clash l c b t rfl
      simp only [clash, hc, Bool.or_eq_false_iff, Bool.true_and] at hclash
      exact hclash.2
    · rintro t b rfl
      exact h.last (l ++ c :: t) b (by simp)

/-! ## From the text to the shape and back -/

namespace Line

variable {s x rhs : Text}

theorem takeWhile_ne_equals (hx : '=' ∉ x) (rhs : Text) :
    (x ++ '=' :: rhs).takeWhile (· != '=') = x ∧
      (x ++ '=' :: rhs).dropWhile (· != '=') = '=' :: rhs := by
  have hpos : ∀ c ∈ x, (c != '=') = true := by
    intro c hc
    have : c ≠ '=' := fun h => hx (h ▸ hc)
    simpa using this
  rw [List.takeWhile_append_of_pos hpos, List.dropWhile_append_of_pos hpos]
  simp

/-- A normal line with an equals sign is judged by the two sides of the first one, as they stand. -/
theorem classify_of_equals (hx : '=' ∉ x) (hn : IsNormal (x ++ '=' :: rhs)) :
    classify (x ++ '=' :: rhs) = ofSides (x ++ '=' :: rhs) x rhs := by
  obtain ⟨htake, hdrop⟩ := takeWhile_ne_equals hx rhs
  obtain ⟨hleft, hright⟩ := hn.trimBlanks_sides rfl
  rw [classify, hn.trimBlanks, ofTrimmed, if_neg (by simp), hdrop, htake]
  show ofSides _ x.trimBlanks rhs.trimBlanks = _
  rw [hleft, hright]

theorem exists_of_ofSides {line name value : Text} {source : Source}
    (h : ofSides line name value = .ok (.assignment x source)) :
    name = x ∧ x.isName = true ∧ source = sourceOf value := by
  unfold ofSides at h
  split at h
  · next hname =>
    dsimp only at h
    split at h
    · obtain ⟨rfl, rfl⟩ := Line.assignment.inj (Except.ok.inj h)
      exact ⟨rfl, hname, rfl⟩
    · exact absurd h (by simp)
  · exact absurd h (by simp)

/-- **A normal text that is an assignment** is the name, the equals sign, and the text of the
    source. -/
theorem eq_append_of_classify_eq_assignment {source : Source} (hn : IsNormal s)
    (h : classify s = .ok (.assignment x source)) :
    x.isName = true ∧ ∃ rhs, s = x ++ '=' :: rhs ∧ source = sourceOf rhs := by
  rw [classify, hn.trimBlanks, ofTrimmed] at h
  split at h
  · exact absurd h (by simp)
  · split at h
    · next c rhs hdrop =>
      have hc : c = '=' := by
        have hhead := List.head?_dropWhile_not (· != '=') s
        rw [hdrop] at hhead
        simpa using hhead
      subst hc
      have hs : s.takeWhile (· != '=') ++ '=' :: rhs = s := by
        rw [← hdrop, List.takeWhile_append_dropWhile]
      obtain ⟨hleft, hright⟩ := IsNormal.trimBlanks_sides (hs ▸ hn) rfl
      rw [hleft, hright] at h
      obtain ⟨hx, hname, hsource⟩ := exists_of_ofSides h
      exact ⟨hname, rhs, by rw [← hx, hs], hsource⟩
    · unfold ofWords at h
      split at h
      · split at h <;> exact absurd h (by simp)
      · split at h
        · split at h <;> exact absurd h (by simp)
        · exact absurd h (by simp)

end Line

/-! ## Lines as they were typed -/

theorem normalize_assignment {u x w : Text} (hu : ∀ c ∈ u, isBlank c = true) (hx : x.IsWord)
    (hw : ∀ c ∈ w, isBlank c = true) (r : Text) :
    normalize (u ++ x ++ w ++ '=' :: r) = x ++ '=' :: normalize r := by
  have hequals : absorb '=' (r.foldr absorb []) = '=' :: normalize r :=
    absorb_of_isBoundary rfl rfl _
  rw [normalize, List.foldr_append, List.foldr_append, List.foldr_append, List.foldr_cons, hequals,
    foldr_absorb_of_isBlank hw (Text.atBoundary_cons rfl _),
    dropWhile_foldr_absorb_of_isBlank hu, hx.foldr_absorb]

theorem normalize_word {u y v : Text} (hu : ∀ c ∈ u, isBlank c = true) (hy : y.IsWord)
    (hv : ∀ c ∈ v, isBlank c = true) : normalize (u ++ y ++ v) = y := by
  rw [normalize, List.foldr_append, List.foldr_append,
    foldr_absorb_of_isBlank hv Text.atBoundary_nil, dropWhile_foldr_absorb_of_isBlank hu,
    hy.foldr_absorb, List.append_nil]

/-- Signs in front of a word become one sign. -/
theorem normalize_signed_word {m y v : Text} (hm : IsSignRun m) (hy : y.IsWord)
    (hv : ∀ c ∈ v, isBlank c = true) : normalize (m ++ y ++ v) = signOf m :: y := by
  have hword : y.foldr absorb [] = y := by
    rw [foldr_absorb_of_not_isBlank hy.2, List.append_nil]
  obtain ⟨c, t, rfl, hblank, hsign⟩ := hy.exists_cons
  have hdrop : (c :: t).dropWhile isBlank = c :: t := by
    rw [List.dropWhile_cons_of_neg (by simp [hblank])]
  have hno : Text.NoSign (c :: t) := by
    intro d w h
    rw [hdrop] at h
    exact (List.cons.inj h).1 ▸ hsign
  have hsignOf : isBlank (signOf m) = false :=
    isBlank_of_isBoundary (isBoundary_of_isSign (isSign_signOf m))
  rw [normalize, List.foldr_append, List.foldr_append,
    foldr_absorb_of_isBlank hv Text.atBoundary_nil, hword, foldr_absorb_signRun hm hno, hdrop,
    List.dropWhile_cons_of_neg (by simp [hsignOf])]

/-! ## What an assignment comes to -/

variable {mode : PowerMode} {env : Environment} {line x rhs : Text}

/-- **Only an assignment line assigns**, and what it assigns is its right-hand side: the number
    written there, or the value of the variable written there. -/
theorem exists_of_resultOf_eq_assigned {v : Int}
    (h : resultOf mode env line = .ok (.assigned x v)) :
    x.isName = true ∧ ∃ rhs, normalize line = x ++ '=' :: rhs ∧
      (Decimal.readInt? rhs = some v ∨ Decimal.readInt? rhs = none ∧ env.get? rhs = some v) := by
  obtain ⟨source, hc, hv⟩ := resultOf_eq_assigned_iff.1 h
  obtain ⟨hx, rhs, hline, rfl⟩ :=
    Line.eq_append_of_classify_eq_assignment (isNormal_normalize line) hc
  refine ⟨hx, rhs, hline, ?_⟩
  unfold Line.sourceOf at hv
  split at hv
  · next n hn => exact Or.inl (hn.trans (congrArg some (Except.ok.inj hv)))
  · next hn => exact Or.inr ⟨hn, Environment.lookup_eq_ok_iff.1 hv⟩

/-- A name on the right, with at most one sign before it, is looked up as it stands. -/
theorem resultOf_of_name (hx : x.isName = true)
    (hname : Text.isName (Decimal.dropSign rhs) = true) (hline : normalize line = x ++ '=' :: rhs) :
    resultOf mode env line = (env.lookup rhs).map (.assigned x) := by
  have hnormal := isNormal_normalize line
  rw [hline] at hnormal
  have hread : Decimal.readInt? rhs = none := by
    rw [Decimal.readInt?, if_neg (by simp [Text.isNumeral_of_isName hname])]
  have hshape : (Text.trimBlanks (Decimal.dropSign rhs)).isName = true := by
    rw [(Text.isWord_of_isName hname).trimBlanks, hname]
  rw [resultOf, hline, Line.classify_of_equals ((Text.isWord_of_isName hx).not_mem rfl) hnormal,
    Line.ofSides, if_pos hx]
  simp only [hshape, Bool.true_or, if_true]
  rw [Line.sourceOf, hread]
  rfl

end LineCalculator
