import LineCalculator.Proofs.Text.Classes
import LineCalculator.Token
import Mathlib.Data.List.TakeWhile

/-!
# Scanning from the left

`pieces` is a fold from the right, and texts are read from the left: first a word or a boundary,
then the rest. The two equations of this file say what the fold makes of a text whose first piece is
known (`pieces_cons_of_isBoundary`, `pieces_append`). A word ends where a boundary follows or
nothing does (`AtBoundary`), and this is the only condition on the rest.
-/

set_option autoImplicit false

namespace LineCalculator

/-- Nothing follows, or a boundary: a word before the text ends there. -/
def Text.AtBoundary (t : Text) : Prop := ∀ c u, t = c :: u → isBoundary c = true

theorem Text.atBoundary_nil : Text.AtBoundary [] := by
  intro c u h
  exact absurd h (by simp)

theorem Text.atBoundary_cons {c : Char} (hc : isBoundary c = true) (t : Text) :
    Text.AtBoundary (c :: t) := by
  intro d u h
  obtain ⟨rfl, -⟩ := List.cons.inj h
  exact hc

theorem Text.AtBoundary.append {s t : Text} (hs : s.AtBoundary) (ht : t.AtBoundary) :
    (s ++ t).AtBoundary := by
  cases s with
  | nil => exact ht
  | cons c u => exact Text.atBoundary_cons (hs c u rfl) _

/-- Nothing stands there, or a boundary at the right end: a word behind the text starts there. -/
def Text.AfterBoundary (t : Text) : Prop := ∀ u c, t = u ++ [c] → isBoundary c = true

theorem Text.afterBoundary_concat {c : Char} (hc : isBoundary c = true) (t : Text) :
    Text.AfterBoundary (t ++ [c]) := by
  intro u d h
  obtain ⟨-, hcd⟩ := List.append_inj' h rfl
  exact (List.cons.inj hcd).1 ▸ hc

theorem Text.AfterBoundary.cons {c : Char} {t : Text} (hc : isBoundary c = true)
    (ht : t.AfterBoundary) : Text.AfterBoundary (c :: t) := by
  intro u d h
  cases u with
  | nil => exact (List.cons.inj h).1 ▸ hc
  | cons e u => exact ht u d (List.cons.inj h).2

/-- Only the right end of a text matters to what may stand behind it. -/
theorem Text.AfterBoundary.append {t : Text} (ht : t.AfterBoundary) (hne : t ≠ []) (s : Text) :
    (s ++ t).AfterBoundary := by
  obtain ⟨u, c, hu⟩ := t.eq_nil_or_concat.resolve_left hne
  rw [hu, List.concat_eq_append] at ht ⊢
  rw [← List.append_assoc]
  exact Text.afterBoundary_concat (ht u c rfl) (s ++ u)

/-! ## Pieces -/

/-- Induction over a text piece by piece, from its right end: a boundary in front, or a word that
    ends at a boundary. -/
@[elab_as_elim]
theorem Text.piece_induction {motive : Text → Prop} (nil : motive [])
    (boundary : ∀ c s, isBoundary c = true → motive s → motive (c :: s))
    (word : ∀ w s, w ≠ [] → (∀ c ∈ w, isBoundary c = false) → Text.AtBoundary s → motive s →
      motive (w ++ s)) (s : Text) : motive s := by
  match s with
  | [] => exact nil
  | c :: s =>
    by_cases hc : isBoundary c = true
    · exact boundary c s hc (piece_induction nil boundary word s)
    · have hsplit := List.takeWhile_append_dropWhile (p := fun d => !isBoundary d) (l := s)
      have hrest : Text.AtBoundary (s.dropWhile fun d => !isBoundary d) := by
        intro d u h
        have hhead := List.head?_dropWhile_not (fun d => !isBoundary d) s
        rw [h] at hhead
        simpa using hhead
      rw [← hsplit, ← List.cons_append]
      refine word _ _ (by simp) ?_ hrest (piece_induction nil boundary word _)
      intro d hd
      rcases List.mem_cons.1 hd with h | h
      · rw [h]
        simpa using hc
      · simpa using List.mem_takeWhile_imp h
termination_by s.length
decreasing_by
  · exact Nat.lt_succ_self _
  · exact Nat.lt_succ_of_le (List.dropWhile_sublist _).length_le

theorem pieces_cons_of_isBoundary {c : Char} (hc : isBoundary c = true) (s : Text) :
    pieces (c :: s) = [c] :: pieces s := by
  rw [pieces_cons]
  unfold extendPieces
  split
  · next hs => rw [hc, Bool.true_or, if_pos rfl, hs]
  · rfl

/-- A word in front of a boundary is the first piece. -/
theorem pieces_append {w t : Text} (hne : w ≠ []) (hw : ∀ c ∈ w, isBoundary c = false)
    (ht : t.AtBoundary) : pieces (w ++ t) = w :: pieces t := by
  induction w with
  | nil => exact absurd rfl hne
  | cons c w ih =>
    obtain ⟨hc, hw⟩ := List.forall_mem_cons.1 hw
    rw [List.cons_append, pieces_cons]
    cases w with
    | nil =>
      cases t with
      | nil => rfl
      | cons d u =>
        have hd : isBoundary d = true := ht d u rfl
        rw [List.nil_append, pieces_cons_of_isBoundary hd, extendPieces, hd, Bool.or_true,
          if_pos rfl]
    | cons d w =>
      have hd : isBoundary d = false := hw d List.mem_cons_self
      rw [ih (by simp) hw, extendPieces, hc, hd]
      rfl

/-- A text is cut at a boundary, whatever stands on the two sides. -/
theorem pieces_append_of_atBoundary (s : Text) {t : Text} (ht : t.AtBoundary) :
    pieces (s ++ t) = pieces s ++ pieces t := by
  induction s using Text.piece_induction with
  | nil => rfl
  | boundary c s hc ih =>
    rw [List.cons_append, pieces_cons_of_isBoundary hc, pieces_cons_of_isBoundary hc, ih,
      List.cons_append]
  | word w s hne hw hs ih =>
    rw [List.append_assoc, pieces_append hne hw (hs.append ht), pieces_append hne hw hs, ih,
      List.cons_append]

theorem pieces_append_of_afterBoundary {s : Text} (hs : s.AfterBoundary) (t : Text) :
    pieces (s ++ t) = pieces s ++ pieces t := by
  rcases s.eq_nil_or_concat with h | ⟨u, c, h⟩
  · rw [h]
    rfl
  · rw [List.concat_eq_append] at h
    have hc : isBoundary c = true := hs u c h
    have hcut : ∀ r, pieces (u ++ c :: r) = pieces u ++ [c] :: pieces r := by
      intro r
      rw [pieces_append_of_atBoundary u (Text.atBoundary_cons hc r), pieces_cons_of_isBoundary hc]
    rw [h, List.append_assoc, List.singleton_append, hcut, hcut, List.append_assoc]
    rfl

theorem mem_of_mem_pieces {p s : Text} (h : p ∈ pieces s) {c : Char} (hc : c ∈ p) : c ∈ s := by
  rw [← flatten_pieces s]
  exact List.mem_flatten.2 ⟨p, h, hc⟩

/-- A piece is a boundary, or a word without one. -/
theorem boundary_or_word_of_mem_pieces {p s : Text} (h : p ∈ pieces s) :
    (∃ c, p = [c] ∧ isBoundary c = true) ∨ p ≠ [] ∧ ∀ c ∈ p, isBoundary c = false := by
  induction s using Text.piece_induction with
  | nil => exact absurd h (by simp)
  | boundary c s hc ih =>
    rw [pieces_cons_of_isBoundary hc] at h
    rcases List.mem_cons.1 h with hp | hp
    · exact Or.inl ⟨c, hp, hc⟩
    · exact ih hp
  | word w s hne hw hs ih =>
    rw [pieces_append hne hw hs] at h
    rcases List.mem_cons.1 h with hp | hp
    · rw [hp]
      exact Or.inr ⟨hne, hw⟩
    · exact ih hp

/-- The pieces without a boundary are the longest texts without one. -/
theorem mem_pieces_iff {w s : Text} (hne : w ≠ []) (hw : ∀ c ∈ w, isBoundary c = false) :
    w ∈ pieces s ↔ ∃ u v, s = u ++ w ++ v ∧ u.AfterBoundary ∧ v.AtBoundary := by
  constructor
  · intro h
    induction s using Text.piece_induction with
    | nil => exact absurd h (by simp)
    | boundary c s hc ih =>
      rw [pieces_cons_of_isBoundary hc] at h
      rcases List.mem_cons.1 h with hwc | h
      · have hbound : isBoundary c = false := hw c (by simp [hwc])
        exact absurd hc (by simp [hbound])
      · obtain ⟨u, v, hs, hu, hv⟩ := ih h
        exact ⟨c :: u, v, by rw [hs]; rfl, hu.cons hc, hv⟩
    | word w' s hne' hw' hs ih =>
      rw [pieces_append hne' hw' hs] at h
      rcases List.mem_cons.1 h with hww | h
      · refine ⟨[], s, by rw [hww]; rfl, ?_, hs⟩
        intro u c hnil
        exact absurd hnil (by simp)
      · obtain ⟨u, v, hsplit, hu, hv⟩ := ih h
        -- The rest starts with a boundary and `w` does not, so something stands before `w`.
        have hune : u ≠ [] := by
          intro hnil
          obtain ⟨c, t, hct⟩ := List.exists_cons_of_ne_nil hne
          have hbound : isBoundary c = true := hs c (t ++ v) (by rw [hsplit, hnil, hct]; rfl)
          have hfree : isBoundary c = false := hw c (by simp [hct])
          exact absurd hbound (by simp [hfree])
        exact ⟨w' ++ u, v, by rw [hsplit]; simp, hu.append hune w', hv⟩
  · rintro ⟨u, v, hs, hu, hv⟩
    have hone : pieces w = [w] := by
      have hcut := pieces_append hne hw Text.atBoundary_nil
      rwa [List.append_nil] at hcut
    rw [hs, pieces_append_of_atBoundary (u ++ w) hv, pieces_append_of_afterBoundary hu, hone]
    simp

namespace Token

theorem scan_append_of_atBoundary (s : Text) {t : Text} (ht : t.AtBoundary) :
    scan (s ++ t) = scan s ++ scan t := by
  rw [scan, pieces_append_of_atBoundary s ht, List.map_append, ← scan, ← scan]

theorem scan_append_of_afterBoundary {s : Text} (hs : s.AfterBoundary) (t : Text) :
    scan (s ++ t) = scan s ++ scan t := by
  rw [scan, pieces_append_of_afterBoundary hs, List.map_append, ← scan, ← scan]

theorem scan_cons_of_isBoundary {c : Char} (hc : isBoundary c = true) (s : Text) :
    scan (c :: s) = ofPiece [c] :: scan s := by
  rw [scan, pieces_cons_of_isBoundary hc]
  rfl

theorem scan_append {w t : Text} (hne : w ≠ []) (hw : ∀ c ∈ w, isBoundary c = false)
    (ht : t.AtBoundary) : scan (w ++ t) = ofPiece w :: scan t := by
  rw [scan, pieces_append hne hw ht]
  rfl

theorem scan_group (u s v : Text) :
    scan (u ++ '(' :: s ++ ')' :: v) = scan u ++ (.leftParen :: scan s ++ [.rightParen]) ++ scan v := by
  have hat : Text.AtBoundary ('(' :: s ++ ')' :: v) := Text.atBoundary_cons rfl _
  have hgroup : scan ('(' :: s ++ ')' :: v) = .leftParen :: scan s ++ [.rightParen] ++ scan v := by
    rw [List.cons_append, scan_cons_of_isBoundary rfl,
      scan_append_of_atBoundary s (Text.atBoundary_cons rfl v), scan_cons_of_isBoundary rfl]
    simp [ofPiece, ofBoundary?]
  rw [List.append_assoc, scan_append_of_atBoundary u hat, hgroup, ← List.append_assoc]

theorem literal_mem_pieces {t : Token} {s : Text} (h : t ∈ scan s) : t.literal ∈ pieces s := by
  rw [← map_literal_scan]
  exact List.mem_map_of_mem h

/-! ## The kinds of pieces -/

theorem ofPiece_symbol (o : Operator) : ofPiece [o.symbol] = .op o := by
  cases o <;> rfl

theorem ofBoundary?_eq_none {c : Char} (hc : isBoundary c = false) : ofBoundary? c = none := by
  unfold ofBoundary?
  split
  · exact absurd hc (by decide)
  · exact absurd hc (by decide)
  · exact absurd hc (by decide)
  · cases h : Operator.ofSymbol? c with
    | none => rfl
    | some o =>
      obtain rfl := Operator.symbol_of_ofSymbol? h
      cases o <;> exact absurd hc (by decide)

/-- A piece without a boundary is a word. -/
theorem ofPiece_of_not_isBoundary {w : Text} (hw : ∀ c ∈ w, isBoundary c = false) :
    ofPiece w = ofWord w := by
  unfold ofPiece
  split
  · next c => rw [ofBoundary?_eq_none (hw c List.mem_cons_self), Option.getD_none]
  · rfl

theorem exists_ofBoundary?_eq_some {c : Char} (hc : isBoundary c = true) :
    ∃ t, ofBoundary? c = some t ∧ ∀ w, t ≠ .unknown w ∧ t ≠ .name w := by
  rcases eq_of_isBoundary hc with h | h | h | h | h | h | h | h
  all_goals
    rw [h]
    exact ⟨_, rfl, by simp⟩

/-- Unknown is a word of neither letters nor digits alone. -/
theorem ofPiece_eq_unknown {p s w : Text} (hp : p ∈ pieces s) (h : ofPiece p = .unknown w) :
    p = w ∧ w ≠ [] ∧ (∀ c ∈ w, isBoundary c = false) ∧ w.all Char.isAlpha = false ∧
      w.all Char.isDigit = false := by
  have hpw : p = w := by rw [← literal_ofPiece p, h, literal]
  subst hpw
  rcases boundary_or_word_of_mem_pieces hp with ⟨c, hpc, hc⟩ | ⟨hne, hfree⟩
  · obtain ⟨t, ht, hknown⟩ := exists_ofBoundary?_eq_some hc
    rw [hpc, ofPiece, ht] at h
    exact absurd h (hknown [c]).1
  · rw [ofPiece_of_not_isBoundary hfree, ofWord] at h
    refine ⟨rfl, hne, hfree, ?_⟩
    split at h
    · exact absurd h (by simp)
    · next halpha =>
      split at h
      · exact absurd h (by simp)
      · next hdigit => exact ⟨by simpa using halpha, by simpa using hdigit⟩

theorem ofPiece_name {x : Text} (hx : x.isName = true) : ofPiece x = .name x := by
  rw [ofPiece_of_not_isBoundary (Text.isWord_of_isName hx).isBoundary_of_mem, ofWord,
    if_pos (List.all_eq_true.2 (Text.isName_iff.1 hx).2)]

theorem ofPiece_numeral {ds : Text} (hds : ds.isNumeral = true) : ofPiece ds = .number ds := by
  obtain ⟨hne, hall⟩ := Text.isNumeral_iff.1 hds
  have hletters : ds.all Char.isAlpha ≠ true := by
    intro h
    obtain ⟨c, hc⟩ := List.exists_mem_of_ne_nil ds hne
    have := List.all_eq_true.1 h c hc
    exact absurd this (by simp [isAlpha_of_isDigit (hall c hc)])
  rw [ofPiece_of_not_isBoundary (Text.isWord_of_isNumeral hds).isBoundary_of_mem, ofWord,
    if_neg hletters, if_pos (List.all_eq_true.2 hall)]

end Token

end LineCalculator
