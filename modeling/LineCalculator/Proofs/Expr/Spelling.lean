import LineCalculator.Outcome
import LineCalculator.Proofs.Line.Shape
import LineCalculator.Proofs.NormalForm.Absorption
import LineCalculator.Proofs.Postfix.Shunting

/-!
# Every spelling of an expression is evaluated to its value

A text passes through four stages before it has a value, and each of them sees a text of its own.
What connects them is the **tight** spelling: no blanks, and one character for every operator. Of
all the ways to write an expression in the same parentheses it is the one that the normal form
leaves.

1. `normalize` makes the tight spelling of any other (`Spells.exists_tight`).
2. The scanner cuts a tight spelling into the tokens of the expression (`Tight.exists_writes`).
3. The yard turns these tokens into the postorder, which the evaluator gives the value of the tree.

The first two are inductions over the spelling, and a part of it stands in the middle of a text. So
both speak of any text behind it at which a word ends.

A tight spelling that is a single numeral or name never gets to the scanner, because its line has a
shape of its own. `Tight.outcome_classify` is where the cases meet.
-/

set_option autoImplicit false

namespace LineCalculator

theorem Operator.isBoundary_symbol (o : Operator) : isBoundary o.symbol = true := by
  cases o <;> rfl

/-! ## Tight spellings -/

/-- `Spells` without blanks and with single signs. -/
inductive Tight : Nat → Expr → Text → Prop
  | number {k : Nat} {ds : Text} :
    ds.isNumeral = true → Tight k (.number (Decimal.numeralValue ds)) ds
  | name {k : Nat} {x : Text} : x.isName = true → Tight k (.var x) x
  | group {k : Nat} {e : Expr} {s : Text} : Tight 0 e s → Tight k e ('(' :: s ++ [')'])
  | binary {k : Nat} {o : Operator} {l r : Expr} {s t : Text} :
    k ≤ o.precedence → Tight o.precedence l s → Tight (o.precedence + 1) r t →
    Tight k (.binary o l r) (s ++ o.symbol :: t)

namespace Tight

variable {k : Nat} {e : Expr} {s : Text}

/-- A tight spelling starts with a letter, a digit or an opening parenthesis. -/
theorem exists_cons (h : Tight k e s) :
    ∃ c u, s = c :: u ∧ isBlank c = false ∧ isSign c = false := by
  induction h with
  | number hds => exact (Text.isWord_of_isNumeral hds).exists_cons
  | name hx => exact (Text.isWord_of_isName hx).exists_cons
  | group _ _ => exact ⟨'(', _, rfl, rfl, rfl⟩
  | binary _ _ _ ihl _ =>
    obtain ⟨c, u, rfl, hblank, hsign⟩ := ihl
    exact ⟨c, _, rfl, hblank, hsign⟩

theorem not_mem_equals (h : Tight k e s) : '=' ∉ s := by
  induction h with
  | number hds => exact (Text.isWord_of_isNumeral hds).not_mem rfl
  | name hx => exact (Text.isWord_of_isName hx).not_mem rfl
  | group _ ih => simpa using ih
  | @binary k o l r s t _ _ _ ihl ihr =>
    intro hmem
    rcases List.mem_append.1 hmem with hmem | hmem
    · exact ihl hmem
    · rcases List.mem_cons.1 hmem with heq | hmem
      · exact absurd heq (by cases o <;> decide)
      · exact ihr hmem

/-- The scanner finds the tokens of the expression, whatever stands behind it. -/
theorem exists_writes (h : Tight k e s) :
    ∃ ts, Writes k e ts ∧ ∀ t : Text, t.AtBoundary → Token.scan (s ++ t) = ts ++ Token.scan t := by
  induction h with
  | @number k ds hds =>
    refine ⟨[.number ds], .number ds, ?_⟩
    intro t ht
    have hword := Text.isWord_of_isNumeral hds
    rw [Token.scan_append hword.1 hword.isBoundary_of_mem ht, Token.ofPiece_numeral hds]
    rfl
  | @name k x hx =>
    refine ⟨[.name x], .name x, ?_⟩
    intro t ht
    have hword := Text.isWord_of_isName hx
    rw [Token.scan_append hword.1 hword.isBoundary_of_mem ht, Token.ofPiece_name hx]
    rfl
  | @group k e s _ ih =>
    obtain ⟨ts, hts, hscan⟩ := ih
    refine ⟨.leftParen :: ts ++ [.rightParen], .group hts, ?_⟩
    intro t ht
    have hin : ('(' :: s ++ [')']) ++ t = '(' :: (s ++ ')' :: t) := by simp
    rw [hin, Token.scan_cons_of_isBoundary rfl, hscan _ (Text.atBoundary_cons rfl t),
      Token.scan_cons_of_isBoundary rfl, List.cons_append, List.cons_append, List.append_assoc]
    rfl
  | @binary k o l r s t' hk _ _ ihl ihr =>
    obtain ⟨ts, hts, hscanl⟩ := ihl
    obtain ⟨us, hus, hscanr⟩ := ihr
    refine ⟨ts ++ .op o :: us, .binary hk hts hus, ?_⟩
    intro t ht
    have hsym := o.isBoundary_symbol
    rw [List.append_assoc, List.cons_append, hscanl _ (Text.atBoundary_cons hsym _),
      Token.scan_cons_of_isBoundary hsym, hscanr t ht, Token.ofPiece_symbol, List.append_assoc,
      List.cons_append]

end Tight

/-! ## From any spelling to the tight one -/

/-- **Absorbing a spelling makes it tight**, up to blanks at its left end. -/
theorem Spells.exists_tight {k : Nat} {e : Expr} {s : Text} (h : Spells k e s) :
    ∃ w, Tight k e w ∧
      ∀ t : Text, t.AtBoundary → (s.foldr absorb t).dropWhile isBlank = w ++ t := by
  induction h with
  | @number k ds hds =>
    rw [← Decimal.numeralValue_eq_horner]
    refine ⟨ds, .number hds, ?_⟩
    intro t _
    exact (Text.isWord_of_isNumeral hds).foldr_absorb t
  | @name k x hx =>
    refine ⟨x, .name hx, ?_⟩
    intro t _
    exact (Text.isWord_of_isName hx).foldr_absorb t
  | @group k e s _ ih =>
    obtain ⟨w, hw, habs⟩ := ih
    refine ⟨'(' :: w ++ [')'], .group hw, ?_⟩
    intro t ht
    have hright : absorb ')' t = ')' :: t := by
      rw [absorb_of_isBoundary rfl rfl, ht.dropWhile_isBlank]
    rw [List.cons_append, List.foldr_cons, List.foldr_append, List.foldr_cons, List.foldr_nil,
      hright, absorb_of_isBoundary rfl rfl, habs _ (Text.atBoundary_cons rfl t),
      List.dropWhile_cons_of_neg (by decide)]
    simp
  | @binary k o l r s m t' hk _ hm _ ihl ihr =>
    obtain ⟨wl, hwl, habsl⟩ := ihl
    obtain ⟨wr, hwr, habsr⟩ := ihr
    refine ⟨wl ++ o.symbol :: wr, .binary hk hwl hwr, ?_⟩
    intro t ht
    -- The run of signs of `m` ends here, because the right operand brings no sign of its own.
    have hno : (t'.foldr absorb t).NoSign := by
      intro d u hd
      obtain ⟨c, v, rfl, -, hsign⟩ := hwr.exists_cons
      rw [habsr t ht, List.cons_append] at hd
      exact (List.cons.inj hd).1 ▸ hsign
    rw [List.foldr_append, List.foldr_append, hm.foldr_absorb hno, habsr t ht,
      habsl _ (Text.atBoundary_cons o.isBoundary_symbol _), List.append_assoc, List.cons_append]
  | @blanks k e u s v hu _ hv ih =>
    obtain ⟨w, hw, habs⟩ := ih
    refine ⟨w, hw, ?_⟩
    intro t ht
    rw [List.foldr_append, List.foldr_append, foldr_absorb_of_isBlank hv ht,
      dropWhile_foldr_absorb_of_isBlank hu, habs t ht]

theorem Spells.tight_normalize {k : Nat} {e : Expr} {s : Text} (h : Spells k e s) :
    Tight k e (normalize s) := by
  obtain ⟨w, hw, habs⟩ := h.exists_tight
  have hnorm : normalize s = w ++ [] := habs [] Text.atBoundary_nil
  rw [hnorm, List.append_nil]
  exact hw

/-! ## Evaluation -/

variable {mode : PowerMode} {env : Environment}

theorem Tight.evaluateExpression {k : Nat} {e : Expr} {s : Text} (h : Tight k e s) :
    evaluateExpression mode env s = e.eval mode env := by
  obtain ⟨ts, hts, hscan⟩ := h.exists_writes
  have hs : Token.scan s = ts := by simpa [Token.scan] using hscan [] Text.atBoundary_nil
  rw [LineCalculator.evaluateExpression, Postfix.ofText, hs, hts.ofTokens]
  exact e.evaluate_postorder mode env

theorem Tight.outcome_classify {k : Nat} {e : Expr} {s : Text} (h : Tight k e s)
    (htrim : s.trimBlanks = s) :
    (Line.classify s).bind (Line.outcome mode env) = (e.eval mode env).map .value := by
  -- Two shapes are tried before the expression, and they take what is a single word.
  have hrest : (∃ c ∈ s, isBoundary c = true) →
      (Line.classify s).bind (Line.outcome mode env) = (e.eval mode env).map .value := by
    intro hb
    rw [← h.evaluateExpression]
    obtain ⟨c, u, rfl, -, hsign⟩ := h.exists_cons
    rw [Line.classify_eq_expression htrim h.not_mem_equals hsign hb]
    rfl
  cases h with
  | number hds =>
    rw [Line.classify_numeral htrim hds]
    rfl
  | name hx =>
    rw [Line.classify_name htrim hx]
    rfl
  | group _ => exact hrest ⟨'(', List.mem_cons_self, rfl⟩
  | @binary _ o => exact hrest ⟨o.symbol, by simp, o.isBoundary_symbol⟩

/-- However an expression is spelled, its line comes to what the expression does. -/
theorem Spells.resultOf_eq {e : Expr} {s : Text} (h : Spells 0 e s) (mode : PowerMode)
    (env : Environment) : resultOf mode env s = (e.eval mode env).map .value :=
  h.tight_normalize.outcome_classify (trimBlanks_normalize s)

/-- **Every spelling of an expression is evaluated to the value of the expression**, or to the first
    error in it, and the variables stay as they are. The precedences, on which it depends what a
    text spells, are in the usual order. -/
theorem evaluate_of_spells :
    (Operator.precedence .add = Operator.precedence .sub ∧
      Operator.precedence .sub < Operator.precedence .mul ∧
      Operator.precedence .mul = Operator.precedence .div ∧
      Operator.precedence .div < Operator.precedence .pow) ∧
    ∀ (mode : PowerMode) (env : Environment) (e : Expr) (s : Text), Spells 0 e s →
      evaluate mode env s = ((e.eval mode env).map .value, env) := by
  refine ⟨by decide, ?_⟩
  intro mode env e s h
  rw [evaluate_eq, h.resultOf_eq, env.record_map_value]

/-- Redundant parentheses, a numeral with leading zeros, a plus written with two minuses, and a
    quotient that is rounded toward zero; and a division by zero, which is met before the variable
    without a value. -/
theorem evaluate_of_spells_operators :
    let env := Environment.empty.define ['x'] 3
    evaluate .exact env " (x) - -+ 007 ^((2))-(2-9)/2*x".toList = (.ok (.value 61), env) ∧
    evaluate .modular env "2^5*4+7/(x-3)-y".toList =
      (.error (.invalidExpression .divisionByZero), env) := by
  intro env
  have hblank : ∀ c ∈ [' '], isBlank c = true := List.forall_mem_singleton.2 rfl
  have hnone : ∀ c ∈ ([] : Text), isBlank c = true := by simp
  have hrun : IsSignRun [' ', '-', ' ', '-', '+'] :=
    ⟨by simp [isSign, isBlank], '-', by simp, rfl⟩
  have hx : ∀ k : Nat, Spells k (.var ['x']) ['x'] := fun _ => .letter rfl
  refine ⟨?_, ?_⟩
  · have hbase : Spells 11 (.number (Decimal.horner ['0', '0', '7'])) [' ', '0', '0', '7', ' '] :=
      .blanks hblank (.number rfl) hblank
    have htwo : Spells 12 (.number (Decimal.horner ['2'])) ['(', '(', '2', ')', ')'] :=
      .group (.group (.digit rfl))
    have hpower := Spells.binary_symbol (o := .pow) (k := 3) (by decide) hbase htwo
    have hsum := Spells.binary (o := .add) (k := 2) (by decide)
      (.blanks hblank (.group (hx 0)) hnone) ⟨hrun, rfl⟩ hpower
    have hdiff := Spells.binary_symbol (o := .sub) (k := 0) (by decide) (.digit (c := '2') rfl)
      (.digit (c := '9') rfl)
    have hquotient := Spells.binary_symbol (o := .div) (k := 10) (by decide) (.group hdiff)
      (.digit (c := '2') rfl)
    have hproduct := Spells.binary_symbol (o := .mul) (k := 3) (by decide) hquotient (hx 11)
    have hline := Spells.binary_symbol (o := .sub) (k := 0) (by decide) hsum hproduct
    exact evaluate_of_spells.2 .exact env _ _ hline
  · have hpower := Spells.binary_symbol (o := .pow) (k := 10) (by decide) (.digit (c := '2') rfl)
      (.digit (c := '5') rfl)
    have hproduct := Spells.binary_symbol (o := .mul) (k := 2) (by decide) hpower
      (.digit (c := '4') rfl)
    have hdiff := Spells.binary_symbol (o := .sub) (k := 0) (by decide) (hx 2)
      (.digit (c := '3') rfl)
    have hquotient := Spells.binary_symbol (o := .div) (k := 3) (by decide) (.digit (c := '7') rfl)
      (.group hdiff)
    have hsum := Spells.binary_symbol (o := .add) (k := 2) (by decide) hproduct hquotient
    have hline := Spells.binary_symbol (o := .sub) (k := 0) (by decide) hsum
      (.letter (c := 'y') rfl)
    exact evaluate_of_spells.2 .modular env _ _ hline

end LineCalculator
