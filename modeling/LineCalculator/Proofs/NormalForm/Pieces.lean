import LineCalculator.Proofs.NormalForm.Absorption
import Mathlib.Data.List.SplitBy

/-!
# Normalizing piece by piece

A line can be cut before it is normalized or after, and the pieces are the same up to what may be
said about pieces alone: each loses the blanks at its ends, those that were nothing but blanks go,
and a run of signs becomes one sign (`pieces_normalize`). So normalizing joins no two words, splits
none, and keeps the blanks inside a word.

The two scanners are brought together by `Text.piece_induction`. For each kind of piece in front of
a line there is an equation for the normal form, and one for the row of pieces: a boundary that is
no sign stays in front, a sign stays or merges with the sign behind it, and a word is trimmed.
-/

set_option autoImplicit false

namespace LineCalculator

/-- Whether a piece is a sign. -/
def isSignPiece : Text → Bool
  | [c] => isSign c
  | _ => false

/-- The pieces without the blanks at their ends, as far as anything is left of them. -/
def trimPieces (ps : List Text) : List Text :=
  (ps.map Text.trimBlanks).filter fun p => !p.isEmpty

/-- What a run comes to: signs become the sign that they mean. -/
def mergeRun (run : List Text) : Text :=
  if run.all isSignPiece then [signOf run.flatten] else run.flatten

/-- The pieces with every longest run of signs made one sign. A piece that is no sign is a run by
    itself. -/
def mergeRuns (ps : List Text) : List Text :=
  (ps.splitBy fun p q => isSignPiece p && isSignPiece q).map mergeRun

/-! ## The normal form behind the first piece -/

theorem normalize_cons_of_isBoundary {c : Char} (hc : isBoundary c = true) (hs : isSign c = false)
    (s : Text) : normalize (c :: s) = c :: normalize s := by
  have hb : isBlank c = false := isBlank_of_isBoundary hc
  rw [normalize, List.foldr_cons, absorb_of_isBoundary hc hs,
    List.dropWhile_cons_of_neg (by simp [hb]), ← normalize]

theorem normalize_cons_sign {c : Char} {s : Text} (hc : isSign c = true)
    (h : ∀ d u, normalize s = d :: u → isSign d = false) : normalize (c :: s) = c :: normalize s := by
  have hb : isBlank c = false := isBlank_of_isBoundary (isBoundary_of_isSign hc)
  rw [normalize, List.foldr_cons, absorb_sign hc h, List.dropWhile_cons_of_neg (by simp [hb]),
    ← normalize]

theorem normalize_cons_sign_sign {c d : Char} {s u : Text} (hc : isSign c = true)
    (hd : isSign d = true) (h : normalize s = d :: u) :
    normalize (c :: s) = mergeSigns c d :: u := by
  have hb : isBlank (mergeSigns c d) = false :=
    isBlank_of_isBoundary (isBoundary_of_isSign (isSign_mergeSigns c d))
  rw [normalize, List.foldr_cons, absorb_sign_of_dropWhile hc hd h,
    List.dropWhile_cons_of_neg (by simp [hb])]

/-- A text at a boundary starts with a boundary also when it is absorbed. -/
theorem Text.AtBoundary.foldr_absorb {s : Text} (hs : s.AtBoundary) :
    Text.AtBoundary (s.foldr absorb []) := by
  cases s with
  | nil => exact hs
  | cons c s => exact atBoundary_absorb (hs c s rfl) _

theorem Text.AtBoundary.normalize {s : Text} (hs : s.AtBoundary) :
    Text.AtBoundary (LineCalculator.normalize s) := by
  rw [LineCalculator.normalize, hs.foldr_absorb.dropWhile_isBlank]
  exact hs.foldr_absorb

/-- In front of a boundary a word loses the blanks at its right end. -/
theorem foldr_absorb_of_not_isBoundary {w t : Text} (hw : ∀ c ∈ w, isBoundary c = false)
    (ht : t.AtBoundary) : w.foldr absorb t = Text.trimEnd isBlank w ++ t := by
  induction w with
  | nil => rfl
  | cons c w ih =>
    obtain ⟨hc, hw⟩ := List.forall_mem_cons.1 hw
    rw [List.foldr_cons, ih hw, Text.trimEnd_cons]
    cases hend : Text.trimEnd isBlank w with
    | nil =>
      by_cases hb : isBlank c = true
      · simp [hb, absorb_of_isBlank_of_atBoundary hb ht]
      · simp [absorb, hb, hc, isSign_of_not_isBoundary hc]
    | cons d u =>
      have hd : isBoundary d = false := by
        refine hw d ?_
        have hmem : d ∈ Text.trimEnd isBlank w := by
          rw [hend]
          exact List.mem_cons_self
        exact Text.mem_of_mem_trimEnd hmem
      simp [absorb, hc, hd, isSign_of_not_isBoundary hc]

/-- At the front of a text the blanks at the left end go as well. -/
theorem dropWhile_trimEnd_append (w : Text) {t : Text} (ht : t.AtBoundary) :
    (Text.trimEnd isBlank w ++ t).dropWhile isBlank = w.trimBlanks ++ t := by
  induction w with
  | nil => exact ht.dropWhile_isBlank
  | cons c w ih =>
    rw [Text.trimEnd_cons]
    by_cases hb : isBlank c = true
    · rw [Text.trimBlanks, Text.trim_cons_of_pos hb, ← Text.trimBlanks, ← ih]
      cases Text.trimEnd isBlank w with
      | nil => simp [hb]
      | cons d u => simp [hb]
    · have hb : isBlank c = false := by simpa using hb
      rw [Text.trimBlanks, Text.trim_cons_of_neg hb]
      simp [hb]

theorem normalize_append_word {w s : Text} (hw : ∀ c ∈ w, isBoundary c = false)
    (hs : s.AtBoundary) : normalize (w ++ s) = w.trimBlanks ++ normalize s := by
  rw [normalize, List.foldr_append, foldr_absorb_of_not_isBoundary hw hs.foldr_absorb,
    dropWhile_trimEnd_append w hs.foldr_absorb, normalize, hs.foldr_absorb.dropWhile_isBlank]

/-! ## The merged pieces behind the first piece -/

theorem exists_of_isSignPiece {p : Text} (h : isSignPiece p = true) :
    ∃ c, p = [c] ∧ isSign c = true := by
  unfold isSignPiece at h
  split at h
  · next c => exact ⟨c, rfl, h⟩
  · exact absurd h (by simp)

theorem isSignPiece_of_not_isBoundary {w : Text} (hw : ∀ c ∈ w, isBoundary c = false) :
    isSignPiece w = false := by
  by_contra h
  obtain ⟨c, hwc, hc⟩ := exists_of_isSignPiece (by simpa using h)
  have hbound : isBoundary c = false := hw c (by simp [hwc])
  exact absurd (isBoundary_of_isSign hc) (by simp [hbound])

theorem mergeRuns_cons_of_not_sign {p : Text} (hp : isSignPiece p = false) (ps : List Text) :
    mergeRuns (p :: ps) = p :: mergeRuns ps := by
  have happend := List.splitBy_append (r := fun p q => isSignPiece p && isSignPiece q)
    (l := [p]) (m := ps) (by simp [hp])
  have hrun : mergeRun [p] = p := by simp [mergeRun, hp]
  rw [mergeRuns, ← List.singleton_append, happend, List.map_append, ← mergeRuns]
  show mergeRun [p] :: mergeRuns ps = _
  rw [hrun]

/-- A longest run becomes one sign. -/
theorem mergeRuns_append {run ps : List Text} (hne : run ≠ [])
    (hrun : ∀ p ∈ run, isSignPiece p = true) (hps : ∀ p ∈ ps.head?, isSignPiece p = false) :
    mergeRuns (run ++ ps) = [signOf run.flatten] :: mergeRuns ps := by
  have happend := List.splitBy_append (r := fun p q => isSignPiece p && isSignPiece q)
    (l := run) (m := ps) (fun p _ q hq => by simp [hps q hq])
  have hchain : run.IsChain fun p q => (isSignPiece p && isSignPiece q) = true := by
    refine (List.pairwise_of_forall_mem_list ?_).isChain
    intro p hp q hq
    simp [hrun p hp, hrun q hq]
  have hmerge : mergeRun run = [signOf run.flatten] := if_pos (List.all_eq_true.2 hrun)
  rw [mergeRuns, happend, List.splitBy_of_isChain hne hchain, List.map_append, ← mergeRuns,
    List.map_singleton, hmerge, List.singleton_append]

/-- A sign in front of the pieces stays if what they come to starts with no sign, and merges with
    that sign if it does. -/
theorem mergeRuns_cons_sign {c : Char} (hc : isSign c = true) (ps : List Text) :
    mergeRuns ([c] :: ps) = [c] :: mergeRuns ps ∧
        (∀ p ∈ (mergeRuns ps).head?, isSignPiece p = false) ∨
      ∃ d qs, isSign d = true ∧ mergeRuns ps = [d] :: qs ∧
        mergeRuns ([c] :: ps) = [mergeSigns c d] :: qs := by
  have hsplit := List.takeWhile_append_dropWhile (p := isSignPiece) (l := ps)
  have hall : ∀ p ∈ ps.takeWhile isSignPiece, isSignPiece p = true :=
    fun p hp => List.mem_takeWhile_imp hp
  have hhead : ∀ p ∈ (ps.dropWhile isSignPiece).head?, isSignPiece p = false := by
    intro p hp
    have hnot := List.head?_dropWhile_not isSignPiece ps
    rw [Option.mem_def.1 hp] at hnot
    simpa using hnot
  revert hsplit hall hhead
  generalize ps.takeWhile isSignPiece = run
  generalize ps.dropWhile isSignPiece = rest
  intro hsplit hall hhead
  subst hsplit
  have hone : ∀ p ∈ [c] :: run, isSignPiece p = true := List.forall_mem_cons.2 ⟨hc, hall⟩
  have hcons := mergeRuns_append (by simp) hone hhead
  cases run with
  | nil =>
    refine Or.inl ⟨?_, ?_⟩
    · have hsign : signOf [c] = c := by
        rcases eq_of_isSign hc with h | h <;> subst h <;> rfl
      simpa [hsign] using hcons
    · cases rest with
      | nil => simp [mergeRuns]
      | cons p rest =>
        have hp : isSignPiece p = false := hhead p rfl
        rw [List.nil_append, mergeRuns_cons_of_not_sign hp]
        simpa using hp
  | cons p run =>
    refine Or.inr ⟨signOf (p :: run).flatten, mergeRuns rest, isSign_signOf _, ?_, ?_⟩
    · exact mergeRuns_append (by simp) hall hhead
    · rw [mergeSigns_signOf hc]
      exact hcons

/-! ## The pieces of a normal form -/

theorem trimPieces_cons_of_isBoundary {c : Char} (hc : isBoundary c = true) (ps : List Text) :
    trimPieces ([c] :: ps) = [c] :: trimPieces ps := by
  have htrim : Text.trimBlanks [c] = [c] := Text.trim_cons_of_neg (isBlank_of_isBoundary hc) []
  simp [trimPieces, htrim]

/-- **Normalizing and cutting commute.** -/
theorem pieces_normalize (s : Text) :
    pieces (normalize s) = mergeRuns (trimPieces (pieces s)) := by
  induction s using Text.piece_induction with
  | nil => rfl
  | boundary c s hc ih =>
    rw [pieces_cons_of_isBoundary hc, trimPieces_cons_of_isBoundary hc]
    by_cases hs : isSign c = true
    · rcases mergeRuns_cons_sign hs (trimPieces (pieces s)) with
        ⟨hstay, hhead⟩ | ⟨d, qs, hd, hps, hmerge⟩
      · rw [← ih] at hstay hhead
        have hno : ∀ d u, normalize s = d :: u → isSign d = false := by
          intro d u h
          by_cases hd : isBoundary d = true
          · rw [h, pieces_cons_of_isBoundary hd] at hhead
            exact hhead [d] rfl
          · exact isSign_of_not_isBoundary (by simpa using hd)
        rw [hstay, normalize_cons_sign hs hno, pieces_cons_of_isBoundary hc]
      · rw [← ih] at hps
        have hnormal : normalize s = d :: qs.flatten := by
          rw [← flatten_pieces (normalize s), hps]
          rfl
        have hqs : pieces qs.flatten = qs := by
          rw [hnormal, pieces_cons_of_isBoundary (isBoundary_of_isSign hd)] at hps
          exact (List.cons.inj hps).2
        rw [hmerge, normalize_cons_sign_sign hs hd hnormal,
          pieces_cons_of_isBoundary (isBoundary_of_isSign (isSign_mergeSigns c d)), hqs]
    · have hs : isSign c = false := by simpa using hs
      have hp : isSignPiece [c] = false := hs
      rw [normalize_cons_of_isBoundary hc hs, pieces_cons_of_isBoundary hc, ih,
        mergeRuns_cons_of_not_sign hp]
  | word w s hne hw hs ih =>
    rw [normalize_append_word hw hs, pieces_append hne hw hs]
    have htrim : ∀ c ∈ Text.trimBlanks w, isBoundary c = false :=
      fun c hc => hw c (Text.mem_of_mem_trim hc)
    by_cases hblank : Text.trimBlanks w = []
    · rw [hblank, List.nil_append, ih]
      simp [trimPieces, hblank]
    · have hcons : trimPieces (w :: pieces s) = Text.trimBlanks w :: trimPieces (pieces s) := by
        simp [trimPieces, hblank]
      rw [pieces_append hblank htrim hs.normalize, ih, hcons,
        mergeRuns_cons_of_not_sign (isSignPiece_of_not_isBoundary htrim)]

/-- Nothing is left of a line exactly if it is blank. -/
theorem normalize_eq_nil_iff {s : Text} : normalize s = [] ↔ ∀ c ∈ s, isBlank c = true := by
  constructor
  · intro h
    have hpieces := pieces_normalize s
    rw [h, pieces_nil, eq_comm, mergeRuns, List.map_eq_nil_iff, List.splitBy_eq_nil, trimPieces,
      List.filter_eq_nil_iff] at hpieces
    have htrim : ∀ p ∈ pieces s, p.trimBlanks = [] := by
      intro p hp
      simpa using hpieces p.trimBlanks (List.mem_map_of_mem hp)
    intro c hc
    rw [← flatten_pieces s] at hc
    obtain ⟨p, hp, hcp⟩ := List.mem_flatten.1 hc
    exact Text.trim_eq_nil_iff.1 (htrim p hp) c hcp
  · intro h
    exact normalize_eq_nil_of_blank h

/-- Merging moves no piece but signs. -/
theorem filter_mergeRuns (ps : List Text) :
    (mergeRuns ps).filter (fun p => !isSignPiece p) = ps.filter fun p => !isSignPiece p := by
  induction ps with
  | nil => rfl
  | cons p ps ih =>
    by_cases hp : isSignPiece p = true
    · obtain ⟨c, hpc, hc⟩ := exists_of_isSignPiece hp
      subst hpc
      rcases mergeRuns_cons_sign hc ps with ⟨hstay, -⟩ | ⟨d, qs, hd, hps, hmerge⟩
      · rw [hstay, List.filter_cons_of_neg (by simp [hp]), List.filter_cons_of_neg (by simp [hp]), ih]
      · have hdp : isSignPiece [d] = true := hd
        have hmp : isSignPiece [mergeSigns c d] = true := isSign_mergeSigns c d
        rw [hps, List.filter_cons_of_neg (by simp [hdp])] at ih
        rw [hmerge, List.filter_cons_of_neg (by simp [hmp]), List.filter_cons_of_neg (by simp [hp]),
          ih]
    · have hp : isSignPiece p = false := by simpa using hp
      rw [mergeRuns_cons_of_not_sign hp, List.filter_cons_of_pos (by simp [hp]),
        List.filter_cons_of_pos (by simp [hp]), ih]

/-- **Normalizing a line is normalizing its row of tokens.** The literals of the normal form are
    those of the line, each without the blanks at its ends and gone if nothing else is in it, with
    every longest run of signs made one sign. All that is no sign stays, in its order. -/
theorem literals_normalize (s : Text) :
    (Token.scan (normalize s)).map Token.literal =
      mergeRuns (trimPieces ((Token.scan s).map Token.literal)) ∧
    ((Token.scan (normalize s)).map Token.literal).filter (fun p => !isSignPiece p) =
      (trimPieces ((Token.scan s).map Token.literal)).filter fun p => !isSignPiece p := by
  rw [Token.map_literal_scan, Token.map_literal_scan, pieces_normalize]
  exact ⟨rfl, filter_mergeRuns _⟩

end LineCalculator
