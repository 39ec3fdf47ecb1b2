import LineCalculator.Proofs.Line.Acceptance
import LineCalculator.Proofs.Line.Grammar
import LineCalculator.Proofs.Postfix.Refusal

/-!
# Which faults a line can report

A fault is found in one of three places: by the yard, which refuses a token or an open group; by the
evaluator, which counts the values at hand; and by an operator on two numbers. Nothing else reports
one, and only an expression line gets that far (`reports_iff`). So a fault that none of the three
can find there is never reported, and one that only one of them finds says where it was found.

The equals sign is such a fault: the yard would refuse it, but a line with an equals sign is no
expression. That there is nothing to evaluate is reported of a line of parentheses only, because
every other token of a phrase is an item of its order (`Postfix.ofText_eq_nil_iff`).
-/

set_option autoImplicit false

namespace LineCalculator

/-- The line ends in the error that there is this fault in its expression. -/
def Reports (mode : PowerMode) (env : Environment) (line : Text) (f : Fault) : Prop :=
  (evaluate mode env line).1 = .error (.invalidExpression f)

/-- Whether a fault lies in a token or a parenthesis, and so is found before anything is evaluated. -/
def Fault.isSyntactic : Fault → Bool
  | unmatchedRightParen | unclosedLeftParen | strayEquals | unknownToken _ => true
  | _ => false

variable {mode : PowerMode} {env : Environment} {line : Text} {f : Fault}

/-! ## Where a fault is found -/

theorem Postfix.isSyntactic_of_ofText {s : Text} (h : ofText s = .error f) :
    f.isSyntactic = true := by
  rcases ofTokens_eq_error_iff.1 h with ⟨us, t, vs, -, -, href⟩ | ⟨-, -, hf⟩
  · cases href <;> rfl
  · rw [hf]
    rfl

theorem Postfix.fault_of_evaluate {p : Postfix}
    (h : p.evaluate mode env = .error (.invalidExpression f)) :
    f.isStructural = true ∨ f.Arithmetic mode := by
  by_cases hp : ∃ e : Expr, p = e.postorder
  · obtain ⟨e, he⟩ := hp
    rw [he, Expr.evaluate_postorder] at h
    exact Or.inr (Expr.arithmetic_of_eval h)
  · obtain ⟨es, f', hflaw⟩ := exists_flaw hp
    rcases hflaw.evaluate mode env with ⟨-, he⟩ | ⟨e, -, x, hx, he⟩
    · have hf : f' = f := by simpa [he] using h
      rw [← hf]
      cases hflaw <;> exact Or.inl rfl
    · have hfault : x = .invalidExpression f := by simpa [he] using h
      rw [hfault] at hx
      exact Or.inr (Expr.arithmetic_of_eval hx)

theorem Line.classify_ne_fault (s : Text) :
    classify (normalize s) ≠ .error (.invalidExpression f) := by
  intro h
  rcases error_of_classify h with ⟨w, hw⟩ | ⟨w, hw⟩
  · cases hw
  · cases hw

theorem Line.not_mem_of_classify_eq_expression {s text : Text}
    (h : classify (normalize s) = .ok (.expression text)) : text ≠ [] ∧ '=' ∉ text := by
  rw [classify_eq_iff (isNormal_normalize s)] at h
  generalize normalize s = n at h
  cases h with
  | expression hne heq _ _ => exact ⟨hne, heq⟩

/-- **A fault is reported by an expression line**, when its tokens are converted or when the
    postfix sequence is evaluated. -/
theorem reports_iff :
    Reports mode env line f ↔
      Line.classify (normalize line) = .ok (.expression (normalize line)) ∧
        (Postfix.ofText (normalize line) = .error f ∨
          ∃ p, Postfix.ofText (normalize line) = .ok p ∧
            p.evaluate mode env = .error (.invalidExpression f)) := by
  have hexpression : evaluateExpression mode env (normalize line) = .error (.invalidExpression f) ↔
      Postfix.ofText (normalize line) = .error f ∨
        ∃ p, Postfix.ofText (normalize line) = .ok p ∧
          p.evaluate mode env = .error (.invalidExpression f) := by
    rw [evaluateExpression, bind_eq_error_iff, Fault.lift_eq_error_iff]
    simp [Fault.lift_eq_ok_iff]
  constructor
  · intro h
    rw [Reports, fst_evaluate, resultOf] at h
    rcases bind_eq_error_iff.1 h with hc | ⟨l, hc, hl⟩
    · exact absurd hc (Line.classify_ne_fault line)
    · cases l with
      | blank => exact absurd hl (by simp [Line.outcome])
      | number n => exact absurd hl (by simp [Line.outcome])
      | lookup x =>
        have hx := Environment.lookup_eq_error_iff.1 (map_eq_error_iff.1 hl)
        exact absurd hx.2 (by simp)
      | assignment x source =>
        have hsource := map_eq_error_iff.1 hl
        cases source with
        | number n => exact absurd hsource (by simp [Source.value])
        | var y => exact absurd (Environment.lookup_eq_error_iff.1 hsource).2 (by simp)
      | expression s =>
        have hs := Line.eq_of_classify_eq_expression (trimBlanks_normalize line) hc
        rw [hs] at hc hl
        exact ⟨hc, hexpression.1 (map_eq_error_iff.1 hl)⟩
  · rintro ⟨hc, h⟩
    rw [Reports, evaluate_of_classify hc]
    exact map_eq_error_iff.2 (hexpression.2 h)

theorem Reports.ofText_eq (h : Reports mode env line f) (hf : f.isSyntactic = true) :
    Postfix.ofText (normalize line) = .error f := by
  rcases (reports_iff.1 h).2 with htext | ⟨p, -, hvalue⟩
  · exact htext
  · rcases Postfix.fault_of_evaluate hvalue with hstruct | harith
    · cases f <;> cases hf <;> cases hstruct
    · cases harith <;> cases hf

theorem Reports.arithmetic (h : Reports mode env line f) (hf : f.isSyntactic = false)
    (hs : f.isStructural = false) : f.Arithmetic mode := by
  rcases (reports_iff.1 h).2 with htext | ⟨p, -, hvalue⟩
  · exact absurd (Postfix.isSyntactic_of_ofText htext) (by simp [hf])
  · exact (Postfix.fault_of_evaluate hvalue).resolve_left (by simp [hs])

/-! ## Nothing but parentheses -/

/-- Parentheses that match, and nothing else. -/
inductive Text.MatchedParens : Text → Prop
  | nil : MatchedParens []
  | group {s t : Text} : MatchedParens s → MatchedParens t → MatchedParens ('(' :: s ++ ')' :: t)

theorem Text.MatchedParens.not_mem_equals {s : Text} (h : s.MatchedParens) : '=' ∉ s := by
  induction h with
  | nil => simp
  | group _ _ ihs iht => simp [ihs, iht]

/-- Such a text is a phrase of groups inside groups. -/
theorem Text.MatchedParens.exists_phrase {s : Text} (h : s.MatchedParens) :
    ∃ p : Phrase, p.tokens = Token.scan s ∧
      ∀ t ∈ Token.scan s, t = .leftParen ∨ t = .rightParen := by
  induction h with
  | nil => exact ⟨.nil, rfl, by simp [Token.scan]⟩
  | @group s t _ _ ihs iht =>
    obtain ⟨p, hp, hs⟩ := ihs
    obtain ⟨q, hq, ht⟩ := iht
    have hgroup : Token.scan ('(' :: s ++ ')' :: t) =
        .leftParen :: Token.scan s ++ .rightParen :: Token.scan t := by
      simpa [Token.scan] using Token.scan_group [] s t
    rw [hgroup]
    refine ⟨.group p q, by rw [Phrase.tokens, hp, hq], ?_⟩
    intro u hu
    rcases List.mem_append.1 hu with hu | hu
    · rcases List.mem_cons.1 hu with hu | hu
      · exact Or.inl hu
      · exact hs u hu
    · rcases List.mem_cons.1 hu with hu | hu
      · exact Or.inr hu
      · exact ht u hu

theorem Phrase.matchedParens {p : Phrase}
    (h : ∀ t ∈ p.tokens, t = .leftParen ∨ t = .rightParen) :
    Text.MatchedParens (p.tokens.map Token.literal).flatten := by
  induction p with
  | nil => exact .nil
  | number ds rest => exact absurd (h _ List.mem_cons_self) (by simp)
  | name x rest => exact absurd (h _ List.mem_cons_self) (by simp)
  | op o rest => exact absurd (h _ List.mem_cons_self) (by simp)
  | group inner rest ihi ihr =>
    have hinner := ihi fun t ht => h t (by simp [tokens, ht])
    have hrest := ihr fun t ht => h t (by simp [tokens, ht])
    simpa [tokens, Token.literal] using hinner.group hrest

/-- A text leaves no items at all exactly if it consists of matched parentheses. -/
theorem Postfix.ofText_eq_nil_iff {s : Text} : ofText s = .ok [] ↔ s.MatchedParens := by
  constructor
  · intro h
    obtain ⟨p, hp, -⟩ := ofTokens_eq_ok_iff.1 h
    have hnone : (Token.scan s).countP (fun t => t != .leftParen && t != .rightParen) = 0 :=
      (length_of_ofTokens h).symm
    have hparens : ∀ t ∈ p.tokens, t = .leftParen ∨ t = .rightParen := by
      intro t ht
      have hno := List.countP_eq_zero.1 hnone t (hp ▸ ht)
      by_contra hne
      exact hno (by simpa using hne)
    have hmatched := Phrase.matchedParens hparens
    rwa [hp, Token.map_literal_scan, flatten_pieces] at hmatched
  · intro h
    obtain ⟨p, hp, hparens⟩ := h.exists_phrase
    have hok : ofTokens (Token.scan s) = .ok p.order := ofTokens_eq_ok_iff.2 ⟨p, hp, rfl⟩
    have hlength : p.order.length = 0 := by
      rw [length_of_ofTokens hok, List.countP_eq_zero]
      intro t ht
      rcases hparens t ht with h | h <;> simp [h]
    rw [ofText, hok, List.eq_nil_of_length_eq_zero hlength]

theorem Line.classify_of_matchedParens {s : Text} (h : s.MatchedParens) (hne : s ≠ [])
    (htrim : s.trimBlanks = s) : classify s = .ok (.expression s) := by
  have heq := h.not_mem_equals
  cases h with
  | nil => exact absurd rfl hne
  | group _ _ =>
    exact classify_eq_expression htrim heq rfl ⟨'(', List.mem_cons_self, rfl⟩

theorem reports_empty_iff :
    Reports mode env line .empty ↔ normalize line ≠ [] ∧ (normalize line).MatchedParens := by
  rw [reports_iff]
  constructor
  · rintro ⟨hc, htext | ⟨p, hp, hvalue⟩⟩
    · exact absurd (Postfix.isSyntactic_of_ofText htext) (by simp [Fault.isSyntactic])
    · obtain ⟨es, hflaw, -⟩ := (Postfix.evaluate_eq_flaw_iff rfl).1 hvalue
      cases hflaw
      exact ⟨(Line.not_mem_of_classify_eq_expression hc).1, Postfix.ofText_eq_nil_iff.1 hp⟩
  · rintro ⟨hne, hmatched⟩
    refine ⟨Line.classify_of_matchedParens hmatched hne (trimBlanks_normalize line), Or.inr ?_⟩
    exact ⟨[], Postfix.ofText_eq_nil_iff.2 hmatched, rfl⟩

/-! ## Tokens that are refused -/

/-- The token that the fault is about is one of the line. -/
theorem Reports.exists_refused (h : Reports mode env line f) (hf : f.isSyntactic = true)
    (hopen : f ≠ .unclosedLeftParen) :
    ∃ us, ∃ t ∈ Token.scan (normalize line), Token.Refused us t f := by
  rcases Postfix.ofTokens_eq_error_iff.1 (h.ofText_eq hf) with ⟨us, t, vs, hscan, -, href⟩ | hlast
  · refine ⟨us, t, ?_, href⟩
    rw [hscan]
    exact List.mem_append_right us List.mem_cons_self
  · exact absurd hlast.2.2 hopen

theorem not_reports_strayEquals : ¬ Reports mode env line .strayEquals := by
  intro h
  obtain ⟨us, t, ht, href⟩ := h.exists_refused rfl (by simp)
  cases href
  have hmem : '=' ∈ normalize line :=
    mem_of_mem_pieces (Token.literal_mem_pieces ht) List.mem_cons_self
  exact (Line.not_mem_of_classify_eq_expression (reports_iff.1 h).1).2 hmem

theorem Reports.word {w : Text} (h : Reports mode env line (.unknownToken w)) :
    w ∈ pieces (normalize line) ∧ w ≠ [] ∧ (∀ c ∈ w, isBoundary c = false) ∧
      w.all Char.isAlpha = false ∧ w.all Char.isDigit = false := by
  obtain ⟨us, t, ht, href⟩ := h.exists_refused rfl (by simp)
  cases href
  obtain ⟨p, hp, hpw⟩ := List.mem_map.1 ht
  obtain ⟨heq, hword⟩ := Token.ofPiece_eq_unknown hp hpw
  rw [heq] at hp
  exact ⟨hp, hword⟩

/-- **The faults that a line can report.** An equals sign is never one, and powers report the faults
    of their mode only. Values left over are two or more; there is nothing to evaluate in a line of
    matched parentheses and in no other; and an unknown token is a longest word of the line, neither
    of letters alone nor of digits alone. -/
theorem reported_faults (mode : PowerMode) (env : Environment) (line : Text) :
    ¬ Reports mode env line .strayEquals ∧
    (∀ text, Line.classify (normalize line) = .ok (.expression text) → '=' ∉ text) ∧
    (∀ e, ¬ Reports .modular env line (.negativeExponent e) ∧
      ¬ Reports .modular env line (.exponentTooLarge e)) ∧
    (∀ b, ¬ Reports .exact env line (.notInvertible b)) ∧
    (∀ k, Reports mode env line (.leftoverOperands k) → 2 ≤ k) ∧
    (Reports mode env line .empty ↔ normalize line ≠ [] ∧ (normalize line).MatchedParens) ∧
    ∀ w, Reports mode env line (.unknownToken w) →
      w ≠ [] ∧ (∀ c ∈ w, isBoundary c = false) ∧
      w.all Char.isAlpha = false ∧ w.all Char.isDigit = false ∧
      ∃ u v, normalize line = u ++ w ++ v ∧ u.AfterBoundary ∧ v.AtBoundary := by
  refine ⟨not_reports_strayEquals, ?_, ?_, ?_, ?_, reports_empty_iff, ?_⟩
  · intro text h
    exact (Line.not_mem_of_classify_eq_expression h).2
  · intro e
    refine ⟨?_, ?_⟩
    · intro h
      cases h.arithmetic rfl rfl
    · intro h
      cases h.arithmetic rfl rfl
  · intro b h
    cases h.arithmetic rfl rfl
  · intro k h
    rcases (reports_iff.1 h).2 with htext | ⟨p, -, hvalue⟩
    · exact absurd (Postfix.isSyntactic_of_ofText htext) (by simp [Fault.isSyntactic])
    · obtain ⟨es, hflaw, -⟩ := (Postfix.evaluate_eq_flaw_iff rfl).1 hvalue
      cases hflaw with
      | leftoverOperands hk => exact hk
  · intro w h
    obtain ⟨hpiece, hne, hfree, halpha, hdigit⟩ := h.word
    exact ⟨hne, hfree, halpha, hdigit, (mem_pieces_iff hne hfree).1 hpiece⟩

end LineCalculator
