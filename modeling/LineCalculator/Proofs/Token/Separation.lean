import LineCalculator.Proofs.Token.Scan
import Mathlib.Data.List.Chain
import Mathlib.Data.Nat.Digits.Defs

/-!
# Texts and separated pieces are one

Cutting a text into pieces and writing pieces one after another undo each other. That nothing is lost
in cutting is `flatten_pieces`, and holds of every text. The other way round the pieces have to be
**separated**: each is a boundary alone or has no boundary in it, and no two of the second kind stand
side by side, since nothing would tell where the one ends. Cutting gives such pieces and every such
row of pieces (`pieces_flatten_iff`), so the two kinds of data are in bijection.

A row of literals determines the tokens as well: what kind of token a piece is shows at the piece
alone. The value of a numeral is the sum of its digits by place (`numeralValue_eq_ofDigits`), however
many digits there are and however many zeros come first.
-/

set_option autoImplicit false

namespace LineCalculator

/-- Not empty, and without boundaries; blanks may be in it. -/
def Text.IsPlain (p : Text) : Prop := p ≠ [] ∧ ∀ c ∈ p, isBoundary c = false

/-- Pieces that can be told apart once they are written one after another. -/
structure Separated (ps : List Text) : Prop where
  /-- Each is a boundary alone, or has no boundary in it. -/
  shape : ∀ p ∈ ps, (∃ c, p = [c] ∧ isBoundary c = true) ∨ p.IsPlain
  /-- Of two neighbours one is a boundary. -/
  apart : ps.IsChain fun p q => ¬ (p.IsPlain ∧ q.IsPlain)

theorem Text.not_isPlain_of_isBoundary {c : Char} (hc : isBoundary c = true) :
    ¬ Text.IsPlain [c] := by
  intro h
  exact absurd (h.2 c List.mem_cons_self) (by simp [hc])

/-! ## One piece more -/

theorem separated_nil : Separated [] := ⟨by simp, .nil⟩

/-- Beside a boundary anything may stand. -/
theorem separated_cons_of_isBoundary {c : Char} (hc : isBoundary c = true) {ps : List Text} :
    Separated ([c] :: ps) ↔ Separated ps := by
  constructor
  · intro h
    exact ⟨(List.forall_mem_cons.1 h.shape).2, (List.isChain_cons.1 h.apart).2⟩
  · intro h
    refine ⟨List.forall_mem_cons.2 ⟨Or.inl ⟨c, rfl, hc⟩, h.shape⟩, ?_⟩
    refine List.isChain_cons.2 ⟨?_, h.apart⟩
    intro q _ hplain
    exact Text.not_isPlain_of_isBoundary hc hplain.1

/-- Behind a plain piece the text goes on with a boundary. -/
theorem separated_cons_of_isPlain {w : Text} (hw : w.IsPlain) {ps : List Text} :
    Separated (w :: ps) ↔ Separated ps ∧ Text.AtBoundary ps.flatten := by
  constructor
  · intro h
    obtain ⟨-, hshape⟩ := List.forall_mem_cons.1 h.shape
    obtain ⟨hhead, hchain⟩ := List.isChain_cons.1 h.apart
    refine ⟨⟨hshape, hchain⟩, ?_⟩
    cases ps with
    | nil => exact Text.atBoundary_nil
    | cons q qs =>
      rcases hshape q List.mem_cons_self with ⟨d, hq, hd⟩ | hq
      · rw [hq]
        exact Text.atBoundary_cons hd qs.flatten
      · exact absurd ⟨hw, hq⟩ (hhead q rfl)
  · intro h
    obtain ⟨hps, hat⟩ := h
    refine ⟨List.forall_mem_cons.2 ⟨Or.inr hw, hps.shape⟩, List.isChain_cons.2 ⟨?_, hps.apart⟩⟩
    intro q hq hplain
    obtain ⟨qs, hqs⟩ := List.head?_eq_some_iff.1 hq
    obtain ⟨d, t, hdt⟩ := List.exists_cons_of_ne_nil hplain.2.1
    have hd : isBoundary d = true := hat d (t ++ qs.flatten) (by rw [hqs, hdt]; rfl)
    exact absurd (hplain.2.2 d (by simp [hdt])) (by simp [hd])

/-! ## Both directions -/

theorem separated_pieces (s : Text) : Separated (pieces s) := by
  induction s using Text.piece_induction with
  | nil => exact separated_nil
  | boundary c s hc ih =>
    rw [pieces_cons_of_isBoundary hc]
    exact (separated_cons_of_isBoundary hc).2 ih
  | word w s hne hw hs ih =>
    rw [pieces_append hne hw hs]
    refine (separated_cons_of_isPlain ⟨hne, hw⟩).2 ⟨ih, ?_⟩
    rw [flatten_pieces]
    exact hs

theorem pieces_flatten {ps : List Text} (h : Separated ps) : pieces ps.flatten = ps := by
  induction ps with
  | nil => rfl
  | cons p ps ih =>
    rw [List.flatten_cons]
    rcases h.shape p List.mem_cons_self with ⟨c, hp, hc⟩ | hp
    · rw [hp] at h ⊢
      rw [List.singleton_append, pieces_cons_of_isBoundary hc,
        ih ((separated_cons_of_isBoundary hc).1 h)]
    · obtain ⟨hps, hat⟩ := (separated_cons_of_isPlain hp).1 h
      rw [pieces_append hp.1 hp.2 hat, ih hps]

/-- **Cutting gives the separated rows of pieces**, each from the text that it is when written. -/
theorem pieces_flatten_iff {ps : List Text} : pieces ps.flatten = ps ↔ Separated ps := by
  constructor
  · intro h
    rw [← h]
    exact separated_pieces ps.flatten
  · exact pieces_flatten

/-! ## Kinds of tokens -/

/-- The value of a numeral is the sum of its digits, each times the power of ten at its place. -/
theorem Decimal.numeralValue_eq_ofDigits (ds : Text) :
    numeralValue ds = Nat.ofDigits 10 (ds.reverse.map digitValue) := by
  rw [numeralValue_eq_horner]
  induction ds with
  | nil => rfl
  | cons c ds ih =>
    have hone : horner [c] = digitValue c := by simp [horner]
    rw [← List.singleton_append, horner_append, hone, ih, List.reverse_append, List.map_append,
      Nat.ofDigits_append]
    simp [Nat.add_comm, Nat.mul_comm]

namespace Token

/-- A token is of the kind that its literal shows: a boundary is one of its own, and of the other
    literals letters make a name, digits a number with the value that they denote in base ten, and
    anything else is unknown. -/
structure ShowsKind (t : Token) : Prop where
  leftParen : t = .leftParen ↔ t.literal = ['(']
  rightParen : t = .rightParen ↔ t.literal = [')']
  equals : t = .equals ↔ t.literal = ['=']
  op : ∀ o, t = .op o ↔ t.literal = [o.symbol]
  name : t.literal.IsPlain → (t = .name t.literal ↔ ∀ c ∈ t.literal, c.isAlpha = true)
  number : t.literal.IsPlain → ∀ n, t.value? = some n ↔
    (∀ c ∈ t.literal, c.isDigit = true) ∧
      n = Nat.ofDigits 10 (t.literal.reverse.map Decimal.digitValue)
  unknown : t.literal.IsPlain →
    (t = .unknown t.literal ↔
      ¬ (∀ c ∈ t.literal, c.isAlpha = true) ∧ ¬ ∀ c ∈ t.literal, c.isDigit = true)

theorem eq_ofPiece_literal {t : Token} {s : Text} (h : t ∈ scan s) : t = ofPiece t.literal := by
  obtain ⟨p, -, hp⟩ := List.mem_map.1 h
  rw [← hp, literal_ofPiece]

theorem ofWord_eq_name_iff {w : Text} : ofWord w = .name w ↔ ∀ c ∈ w, c.isAlpha = true := by
  rw [← List.all_eq_true, ofWord]
  split
  · next h => simp [h]
  · next h => split <;> simp [h]

theorem value?_ofWord_eq_some_iff {w : Text} (hne : w ≠ []) {n : Nat} :
    (ofWord w).value? = some n ↔
      (∀ c ∈ w, c.isDigit = true) ∧ n = Nat.ofDigits 10 (w.reverse.map Decimal.digitValue) := by
  rw [← List.all_eq_true, ← Decimal.numeralValue_eq_ofDigits, ofWord]
  split
  · next h =>
    -- A name is no number, because it has a first letter.
    have hno : w.all Char.isDigit ≠ true := by
      intro hdigits
      have hname : w.isName = true := Text.isName_iff.2 ⟨hne, List.all_eq_true.1 h⟩
      have hnumeral : w.isNumeral = true := Text.isNumeral_iff.2 ⟨hne, List.all_eq_true.1 hdigits⟩
      exact absurd hnumeral (by simp [Text.isNumeral_of_isName hname])
    simp [value?, hno]
  · split
    · next h => simp [value?, h, eq_comm]
    · next h => simp [value?, h]

theorem ofWord_eq_unknown_iff {w : Text} :
    ofWord w = .unknown w ↔
      ¬ (∀ c ∈ w, c.isAlpha = true) ∧ ¬ ∀ c ∈ w, c.isDigit = true := by
  rw [← List.all_eq_true, ← List.all_eq_true, ofWord]
  split
  · next h => simp [h]
  · next h => split <;> simp [*]

theorem showsKind_of_mem_scan {t : Token} {s : Text} (h : t ∈ scan s) : t.ShowsKind := by
  have ht := eq_ofPiece_literal h
  -- What a boundary stands for is read off the one character.
  have hboundary : ∀ t' : Token, ofPiece t'.literal = t' → (t = t' ↔ t.literal = t'.literal) := by
    intro t' ht'
    constructor
    · intro heq
      rw [heq]
    · intro heq
      rw [ht, heq, ht']
  have hword : t.literal.IsPlain → t = ofWord t.literal := by
    intro hplain
    rw [← ofPiece_of_not_isBoundary hplain.2, ← ht]
  refine ⟨hboundary .leftParen rfl, hboundary .rightParen rfl, hboundary .equals rfl,
    fun o => hboundary (.op o) (ofPiece_symbol o), ?_, ?_, ?_⟩
  · intro hplain
    rw [hword hplain, literal_ofWord]
    exact ofWord_eq_name_iff
  · intro hplain n
    rw [hword hplain, literal_ofWord]
    exact value?_ofWord_eq_some_iff hplain.1
  · intro hplain
    rw [hword hplain, literal_ofWord]
    exact ofWord_eq_unknown_iff

/-- A text gives names of letters only. -/
theorem isName_of_mem_scan {x s : Text} (h : .name x ∈ scan s) : x.isName = true := by
  have hx : ofPiece x = .name x := (eq_ofPiece_literal h).symm
  have hpiece : x ∈ pieces s := literal_mem_pieces h
  rcases boundary_or_word_of_mem_pieces hpiece with ⟨c, hxc, hc⟩ | ⟨hne, hfree⟩
  · obtain ⟨t, ht, hknown⟩ := exists_ofBoundary?_eq_some hc
    rw [hxc, ofPiece, ht] at hx
    exact absurd hx (hknown [c]).2
  · rw [ofPiece_of_not_isBoundary hfree] at hx
    exact Text.isName_iff.2 ⟨hne, ofWord_eq_name_iff.1 hx⟩

/-- **Scanning is a bijection between texts and separated rows of literals**, with writing the row as
    its inverse, and each literal shows what token it is. -/
theorem scan_bijective :
    (∀ s : Text, Separated ((scan s).map literal) ∧ ((scan s).map literal).flatten = s ∧
      ∀ t ∈ scan s, t.ShowsKind) ∧
    ∀ ps : List Text, Separated ps → (scan ps.flatten).map literal = ps := by
  constructor
  · intro s
    rw [map_literal_scan]
    exact ⟨separated_pieces s, flatten_pieces s, fun t ht => showsKind_of_mem_scan ht⟩
  · intro ps hps
    rw [map_literal_scan]
    exact pieces_flatten hps

/-- Two signs in a row are two pieces, and the number behind them has the zeros that it was written
    with and the value without them. -/
theorem scan_bijective_leading_zeros :
    Separated ["x y".toList, ['-'], ['-'], "007".toList] ∧
      (scan "x y--007".toList).map literal = ["x y".toList, ['-'], ['-'], "007".toList] ∧
      (number "007".toList).value? = some 7 := by
  have hword : Text.IsPlain "x y".toList := ⟨by simp, by simp [isBoundary, boundaries]⟩
  have hnumeral : Text.IsPlain "007".toList := ⟨by simp, by simp [isBoundary, boundaries]⟩
  have hps : Separated ["x y".toList, ['-'], ['-'], "007".toList] := by
    refine (separated_cons_of_isPlain hword).2 ⟨?_, Text.atBoundary_cons rfl _⟩
    refine (separated_cons_of_isBoundary rfl).2 ((separated_cons_of_isBoundary rfl).2 ?_)
    exact (separated_cons_of_isPlain hnumeral).2 ⟨separated_nil, Text.atBoundary_nil⟩
  have hkind := (scan_bijective.1 "x y--007".toList).2.2 (number "007".toList) (by decide)
  exact ⟨hps, scan_bijective.2 _ hps, (hkind.number hnumeral 7).2 ⟨by simp [literal], rfl⟩⟩

end Token

end LineCalculator
