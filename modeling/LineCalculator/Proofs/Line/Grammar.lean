import LineCalculator.Line
import LineCalculator.Proofs.Line.Assignment
import LineCalculator.Proofs.NormalForm.Pieces

/-!
# Classifying is reading by the grammar

`classify` tries one shape after another, and trims at each step. The grammar (`Line.Says`) knows
neither an order nor blanks. On a normal text the two agree: what the grammar says is what
`classify` answers (`Line.Says.classify_eq`), and the grammar says something of every text
(`Line.exists_says`), so it says nothing else.

The trimming has nothing to do, since no blank stands at an end of a normal text or beside an
equals sign or a sign. This holds of normal texts only: `a= 5` would be an assignment too.
-/

set_option autoImplicit false

namespace LineCalculator

/-! ## Signs in front -/

namespace Decimal

theorem dropSign_cons_of_isSign {c : Char} (hc : isSign c = true) (s : Text) :
    dropSign (c :: s) = s := by
  rw [dropSign, if_pos hc]

theorem dropSign_eq_self {w : Text} (hw : w.IsWord) : dropSign w = w := by
  obtain ⟨c, u, hcu, -, hsign⟩ := hw.exists_cons
  rw [hcu, dropSign_cons hsign]

/-- Reading an integer is reading a signed numeral. -/
theorem readInt?_eq_some_iff {s : Text} {n : Int} : readInt? s = some n ↔ SignedNumeral s n := by
  constructor
  · intro h
    rw [readInt?] at h
    split at h
    · next hds =>
      have h := Option.some.inj h
      subst h
      rw [numeralValue_eq_horner]
      cases s with
      | nil => exact absurd hds (by decide)
      | cons c u =>
        by_cases hc : isSign c = true
        · rw [dropSign_cons_of_isSign hc] at hds ⊢
          rcases eq_of_isSign hc with h | h
          · subst h
            exact .plus hds
          · subst h
            exact .minus hds
        · have hc : isSign c = false := by simpa using hc
          have hminus : (c :: u).head? ≠ some '-' := by
            intro h
            have h : c = '-' := Option.some.inj h
            exact absurd hc (by simp [h, isSign])
          rw [dropSign_cons hc] at hds ⊢
          rw [if_neg hminus]
          exact .plain hds
    · exact absurd h (by simp)
  · intro h
    cases h with
    | plain hds => rw [readInt?_numeral hds, numeralValue_eq_horner]
    | plus hds =>
      rw [readInt?, dropSign_cons_of_isSign rfl, if_pos hds, numeralValue_eq_horner]
      rfl
    | minus hds =>
      rw [readInt?, dropSign_cons_of_isSign rfl, if_pos hds, numeralValue_eq_horner]
      rfl

theorem readInt?_eq_none_iff {s : Text} : readInt? s = none ↔ ∀ n, ¬ SignedNumeral s n := by
  simp only [Option.eq_none_iff_forall_ne_some, ne_eq, readInt?_eq_some_iff]

end Decimal

open Decimal

theorem exists_signedNumeral_iff {s : Text} :
    (∃ n, SignedNumeral s n) ↔ (dropSign s).isNumeral = true := by
  simp only [← readInt?_eq_some_iff, readInt?]
  by_cases h : (dropSign s).isNumeral = true
  · simp [h]
  · simp [h]

theorem signedName_iff {s : Text} : SignedName s ↔ (dropSign s).isName = true := by
  constructor
  · intro h
    cases h with
    | plain hx => rwa [dropSign_eq_self (Text.isWord_of_isName hx)]
    | signed hc hx => rwa [dropSign_cons_of_isSign hc]
  · intro h
    cases s with
    | nil => exact absurd h (by decide)
    | cons c u =>
      by_cases hc : isSign c = true
      · rw [dropSign_cons_of_isSign hc] at h
        exact .signed hc h
      · rw [dropSign_cons (by simpa using hc)] at h
        exact .plain h

/-- Behind the sign of a right-hand side no blank stands either. -/
theorem IsNormal.trimBlanks_dropSign {l r : Text} (h : IsNormal (l ++ '=' :: r)) :
    (dropSign r).trimBlanks = dropSign r := by
  cases r with
  | nil => rfl
  | cons c u =>
    by_cases hc : isSign c = true
    · have hn : IsNormal ((l ++ ['=']) ++ c :: u) := by
        rwa [List.append_assoc, List.singleton_append]
      rw [dropSign_cons_of_isSign hc]
      exact (hn.trimBlanks_sides (isBoundary_of_isSign hc)).2
    · rw [dropSign_cons (by simpa using hc)]
      exact (h.trimBlanks_sides rfl).2

/-- A literal holds nothing but signs and digits. -/
theorem SignedNumeral.not_mem {s : Text} {n : Int} (h : SignedNumeral s n) {c : Char}
    (hsign : isSign c = false) (hdigit : c.isDigit = false) : c ∉ s := by
  have hdigits : ∀ ds : Text, ds.isNumeral = true → c ∉ ds := by
    intro ds hds hmem
    exact absurd ((Text.isNumeral_iff.1 hds).2 c hmem) (by simp [hdigit])
  cases h with
  | plain hds => exact hdigits _ hds
  | plus hds | minus hds =>
    intro hmem
    rcases List.mem_cons.1 hmem with hc | hmem
    · rw [hc] at hsign
      exact absurd hsign (by simp [isSign])
    · exact hdigits _ hds hmem

theorem SignedNumeral.ne_nil {s : Text} {n : Int} (h : SignedNumeral s n) : s ≠ [] := by
  cases h with
  | plain hds => exact (Text.isWord_of_isNumeral hds).1
  | plus hds | minus hds => exact List.cons_ne_nil _ _

namespace Line

variable {s l r : Text}

/-! ## What the grammar says is what is answered -/

theorem classify_of_name_equals (hl : l.isName = true) (hn : IsNormal (l ++ '=' :: r)) :
    classify (l ++ '=' :: r) =
      if (dropSign r).isName || (dropSign r).isNumeral then .ok (.assignment l (sourceOf r))
      else .error (.invalidAssignment (l ++ '=' :: r)) := by
  rw [classify_of_equals ((Text.isWord_of_isName hl).not_mem rfl) hn, ofSides, if_pos hl]
  simp only [hn.trimBlanks_dropSign]

/-- **What the grammar says of a normal text is how the text is classified.** -/
theorem Says.classify_eq {result : Except LineError Line} (h : Says s result) (hn : IsNormal s) :
    classify s = result := by
  cases h with
  | blank => rfl
  | badName hl hname => rw [classify_of_equals hl hn, ofSides, if_neg (by simp [hname])]
  | @badSource l r hl hnumber hname =>
    have hnumeral : (dropSign r).isNumeral ≠ true :=
      fun h => (exists_signedNumeral_iff.2 h).elim hnumber
    have hname : (dropSign r).isName ≠ true := fun h => hname (signedName_iff.2 h)
    rw [classify_of_name_equals hl hn, if_neg (by simp [hnumeral, hname])]
  | assignNumber hl hnumber =>
    have hnumeral := exists_signedNumeral_iff.1 ⟨_, hnumber⟩
    rw [classify_of_name_equals hl hn, if_pos (by simp [hnumeral]), sourceOf,
      readInt?_eq_some_iff.2 hnumber]
  | @assignVar l r hl hname =>
    have hname := signedName_iff.1 hname
    have hread : readInt? r = none := by
      rw [readInt?, if_neg (by simp [Text.isNumeral_of_isName hname])]
    rw [classify_of_name_equals hl hn, if_pos (by simp [hname]), sourceOf, hread]
  | number hnumber =>
    rw [classify_of_not_mem hn.trimBlanks hnumber.ne_nil (hnumber.not_mem rfl rfl),
      ofWords_of_readInt? (readInt?_eq_some_iff.2 hnumber)]
  | lookup hname => exact classify_name hn.trimBlanks hname
  | badWord hbare hname hnumeral =>
    have hword := Text.isWord_of_isBareWord hbare
    have hread : readInt? s = none := by
      rw [readInt?, dropSign_eq_self hword, if_neg (by simp [hnumeral])]
    rw [classify_of_not_mem hn.trimBlanks hword.1 (hword.not_mem rfl),
      ofWords_of_no_integer hread, if_pos hbare, if_neg (by simp [hname])]
  | expression hne heq hnumber hbare =>
    rw [classify_of_not_mem hn.trimBlanks hne heq,
      ofWords_of_no_integer (readInt?_eq_none_iff.2 hnumber), if_neg (by simp [hbare])]

/-! ## The grammar leaves no text out -/

theorem exists_says_of_mem (h : '=' ∈ s) : ∃ result, Says s result := by
  obtain ⟨l, r, hs, hl⟩ := List.eq_append_cons_of_mem h
  rw [hs]
  by_cases hname : Text.isName l = true
  · by_cases hnumber : ∃ n, SignedNumeral r n
    · obtain ⟨n, hn⟩ := hnumber
      exact ⟨_, .assignNumber hname hn⟩
    · by_cases hvar : SignedName r
      · exact ⟨_, .assignVar hname hvar⟩
      · exact ⟨_, .badSource hname (not_exists.1 hnumber) hvar⟩
  · exact ⟨_, .badName hl (by simpa using hname)⟩

theorem exists_says (s : Text) : ∃ result, Says s result := by
  by_cases hne : s = []
  · rw [hne]
    exact ⟨_, .blank⟩
  · by_cases heq : '=' ∈ s
    · exact exists_says_of_mem heq
    · by_cases hnumber : ∃ n, SignedNumeral s n
      · obtain ⟨n, hn⟩ := hnumber
        exact ⟨_, .number hn⟩
      · have hnumber := not_exists.1 hnumber
        by_cases hbare : s.isBareWord = true
        · by_cases hname : s.isName = true
          · exact ⟨_, .lookup hname⟩
          · have hnumeral : s.isNumeral ≠ true := fun h => hnumber _ (.plain h)
            exact ⟨_, .badWord hbare (by simpa using hname) (by simpa using hnumeral)⟩
        · exact ⟨_, .expression hne heq hnumber (by simpa using hbare)⟩

/-- On a normal text, classifying and the grammar are one. -/
theorem classify_eq_iff (hn : IsNormal s) (result : Except LineError Line) :
    classify s = result ↔ Says s result := by
  constructor
  · intro h
    obtain ⟨result', hsays⟩ := exists_says s
    rw [← h, hsays.classify_eq hn]
    exact hsays
  · intro h
    exact h.classify_eq hn

theorem error_of_classify {e : LineError} (h : classify (normalize s) = .error e) :
    (∃ w, e = .invalidIdentifier w) ∨ ∃ w, e = .invalidAssignment w := by
  rw [classify_eq_iff (isNormal_normalize s)] at h
  generalize normalize s = n at h
  cases h with
  | badName _ _ => exact Or.inl ⟨_, rfl⟩
  | badSource _ _ _ => exact Or.inr ⟨_, rfl⟩
  | badWord _ _ _ => exact Or.inl ⟨_, rfl⟩

theorem eq_of_classify_eq_lookup {x : Text} (h : classify (normalize s) = .ok (.lookup x)) :
    normalize s = x := by
  rw [classify_eq_iff (isNormal_normalize s)] at h
  generalize normalize s = n at h ⊢
  cases h
  rfl

theorem eq_of_classify_eq_assignment {x y : Text}
    (h : classify (normalize s) = .ok (.assignment y (.var x))) : normalize s = y ++ '=' :: x := by
  rw [classify_eq_iff (isNormal_normalize s)] at h
  generalize normalize s = n at h ⊢
  cases h
  rfl

end Line

/-- **Every line is classified by the grammar of its normal form.** It is blank exactly if nothing
    but blanks was typed; what it is classified as is what the grammar says of it, and the grammar
    says one thing only; none of the trimming on the way changes a piece of it; and an integer is
    read exactly where the grammar has one. -/
theorem classify_normalize_iff_says (s : Text) :
    (normalize s = [] ↔ ∀ c ∈ s, isBlank c = true) ∧
    (∀ result, Line.classify (normalize s) = result ↔ Line.Says (normalize s) result) ∧
    (normalize s).trimBlanks = normalize s ∧
    (∀ l r : Text, normalize s = l ++ '=' :: r →
      l.trimBlanks = l ∧ r.trimBlanks = r ∧ (dropSign r).trimBlanks = dropSign r) ∧
    ∀ t n, readInt? t = some n ↔ SignedNumeral t n := by
  have hn := isNormal_normalize s
  refine ⟨normalize_eq_nil_iff, Line.classify_eq_iff hn, hn.trimBlanks, ?_,
    fun t n => readInt?_eq_some_iff⟩
  intro l r h
  rw [h] at hn
  obtain ⟨hl, hr⟩ := hn.trimBlanks_sides rfl
  exact ⟨hl, hr, hn.trimBlanks_dropSign⟩

end LineCalculator
