import LineCalculator.Proofs.Line.Footprint
import LineCalculator.Proofs.Line.Grammar

/-!
# Which variable is reported as unknown

A report of an unknown variable is true: the variable has no value. It also is the **first** one that
can be reported. Items act from left to right, and the conversion, which moves operators, keeps the
operands in the order of the text (`Postfix.names_of_ofText`), so in an expression every name before
the reported one has a value.

The converse fails. A variable without a value is not reported if the conversion has failed before,
or an operator to its left.
-/

set_option autoImplicit false

namespace LineCalculator

variable {mode : PowerMode} {env : Environment} {x : Text}

/-! ## Items -/

theorem Environment.lookup_eq_unknown_iff {y : Text} :
    env.lookup y = .error (.unknownVariable x) ↔ y = x ∧ env.get? x = none := by
  rw [lookup_eq_error_iff]
  constructor
  · intro h
    obtain ⟨hget, hy⟩ := h
    have hyx : y = x := LineError.unknownVariable.inj hy
    exact ⟨hyx, hyx ▸ hget⟩
  · intro h
    obtain ⟨hyx, hget⟩ := h
    exact ⟨hyx ▸ hget, congrArg LineError.unknownVariable hyx⟩

/-- Only a variable looks something up, and reports itself. -/
theorem Item.step_eq_unknown_iff {i : Item} {stack : List Int} :
    i.step mode env stack = .error (.unknownVariable x) ↔ i = .var x ∧ env.get? x = none := by
  cases i with
  | number n => simp [step]
  | var y => rw [step, map_eq_error_iff, Environment.lookup_eq_unknown_iff, Item.var.injEq]
  | op o =>
    match stack with
    | rhs :: lhs :: below => simp [step, map_eq_error_iff, Fault.lift_eq_error_iff]
    | [] | [_] => simp [step]

namespace Postfix

variable {p : Postfix} {stack s : List Int}

/-- A run fails at the first item that cannot act. -/
theorem run_eq_error_iff {e : LineError} :
    run mode env stack p = .error e ↔
      ∃ q i r s, p = q ++ i :: r ∧ run mode env stack q = .ok s ∧ i.step mode env s = .error e :=
  foldlM_eq_error_iff

/-- A run that gets to its end has found all its variables. -/
theorem isSome_get?_of_run (h : run mode env stack p = .ok s) (hx : .var x ∈ p) :
    (env.get? x).isSome = true := by
  obtain ⟨q, r, hp⟩ := List.append_of_mem hx
  rw [hp, run_append] at h
  obtain ⟨t, -, hrest⟩ := bind_eq_ok_iff.1 h
  obtain ⟨u, hstep, -⟩ := bind_eq_ok_iff.1 hrest
  obtain ⟨v, hv, -⟩ := map_eq_ok_iff.1 hstep
  rw [Environment.lookup_eq_ok_iff.1 hv]
  rfl

theorem exists_of_evaluate_eq_unknown (h : p.evaluate mode env = .error (.unknownVariable x)) :
    env.get? x = none ∧
      ∃ q r, p = q ++ .var x :: r ∧ ∀ y, .var y ∈ q → (env.get? y).isSome = true := by
  rcases bind_eq_error_iff.1 h with hrun | ⟨stack, -, hsingle⟩
  · obtain ⟨q, i, r, s, hp, hq, hi⟩ := run_eq_error_iff.1 hrun
    obtain ⟨hix, hnone⟩ := Item.step_eq_unknown_iff.1 hi
    rw [hix] at hp
    exact ⟨hnone, q, r, hp, fun y hy => isSome_get?_of_run hq hy⟩
  · obtain ⟨f, -, hf⟩ := Fault.lift_eq_error_iff.1 hsingle
    exact absurd hf (by simp)

end Postfix

/-! ## Names in their order -/

/-- The name of a variable; other items have none. -/
def Item.name? : Item → Option Text
  | var x => some x
  | _ => none

/-- The variables of a sequence are the names of the text, in the same order. -/
theorem Postfix.names_of_ofText {s : Text} {p : Postfix} (h : ofText s = .ok p) :
    p.filterMap Item.name? = Token.names (Token.scan s) := by
  have hoperand : ∀ l : List Item,
      (l.filter Item.isOperand).filterMap Item.name? = l.filterMap Item.name? := by
    intro l
    rw [List.filterMap_filter]
    refine List.filterMap_congr ?_
    intro i _
    cases i <;> rfl
  rw [← hoperand, operands_of_ofTokens h, hoperand, List.filterMap_filterMap, Token.names]
  refine List.filterMap_congr ?_
  intro t _
  cases t <;> rfl

theorem Token.exists_of_names_eq {ts : List Token} {xs ys : List Text}
    (h : names ts = xs ++ x :: ys) : ∃ us vs, ts = us ++ .name x :: vs ∧ names us = xs := by
  obtain ⟨ls, rs, hts, hls, hrs⟩ := List.filterMap_eq_append_iff.1 h
  obtain ⟨ms, t, vs, hrs, hms, ht, -⟩ := List.filterMap_eq_cons_iff.1 hrs
  have htx : t = .name x := by
    cases t with
    | name y => exact congrArg Token.name (Option.some.inj ht)
    | _ => exact absurd ht (by simp)
  refine ⟨ls ++ ms, vs, by rw [hts, hrs, htx, List.append_assoc], ?_⟩
  rw [names, List.filterMap_append, hls, List.filterMap_eq_nil_iff.2 hms, List.append_nil]

/-! ## Lines -/

/-- Of what a normal line looks up, `x` is the first that can be without a value: the line is nothing
    but `x`, or `x` is its right-hand side as it stands, or the line is an expression without an error
    of syntax, and every name to the left of the first `x` in it has a value. -/
inductive AsksFirst (env : Environment) (x : Text) : Text → Prop
  | lookup : Line.classify x = .ok (.lookup x) → AsksFirst env x x
  | source {y : Text} :
    Line.classify (y ++ '=' :: x) = .ok (.assignment y (.var x)) → AsksFirst env x (y ++ '=' :: x)
  | token {s : Text} {p : Postfix} {us vs : List Token} :
    Line.classify s = .ok (.expression s) → Postfix.ofText s = .ok p →
    Token.scan s = us ++ .name x :: vs → .name x ∉ us →
    (∀ y, .name y ∈ us → (env.get? y).isSome = true) → AsksFirst env x s

theorem evaluateExpression_eq_unknown {s : Text}
    (h : evaluateExpression mode env s = .error (.unknownVariable x)) :
    env.get? x = none ∧ ∃ p us vs, Postfix.ofText s = .ok p ∧
      Token.scan s = us ++ .name x :: vs ∧ ∀ y, .name y ∈ us → (env.get? y).isSome = true := by
  rcases bind_eq_error_iff.1 h with hlift | ⟨p, hlift, hvalue⟩
  · obtain ⟨f, -, hf⟩ := Fault.lift_eq_error_iff.1 hlift
    exact absurd hf (by simp)
  · have hp : Postfix.ofText s = .ok p := Fault.lift_eq_ok_iff.1 hlift
    obtain ⟨hnone, q, r, hsplit, hbefore⟩ := Postfix.exists_of_evaluate_eq_unknown hvalue
    have hnames : Token.names (Token.scan s) =
        q.filterMap Item.name? ++ x :: r.filterMap Item.name? := by
      rw [← Postfix.names_of_ofText hp, hsplit, List.filterMap_append]
      rfl
    obtain ⟨us, vs, hscan, hus⟩ := Token.exists_of_names_eq hnames
    refine ⟨hnone, p, us, vs, hp, hscan, ?_⟩
    intro y hy
    -- A name to the left of `x` is a variable that the evaluation has passed.
    have hmem : y ∈ q.filterMap Item.name? := hus ▸ Token.mem_names_iff.2 hy
    obtain ⟨i, hi, hiy⟩ := List.mem_filterMap.1 hmem
    cases i with
    | var z => exact hbefore y (Option.some.inj hiy ▸ hi)
    | _ => exact absurd hiy (by simp [Item.name?])

theorem Line.classify_ne_unknown (s : Text) :
    classify (normalize s) ≠ .error (.unknownVariable x) := by
  intro h
  rcases error_of_classify h with ⟨w, hw⟩ | ⟨w, hw⟩
  · cases hw
  · cases hw

theorem Line.outcome_eq_unknown {l : Line}
    (h : l.outcome mode env = .error (.unknownVariable x)) :
    l = .lookup x ∧ env.get? x = none ∨ (∃ y, l = .assignment y (.var x)) ∧ env.get? x = none ∨
      ∃ s, l = .expression s ∧ evaluateExpression mode env s = .error (.unknownVariable x) := by
  cases l with
  | blank => exact absurd h (by simp [outcome])
  | number n => exact absurd h (by simp [outcome])
  | lookup y =>
    obtain ⟨hyx, hnone⟩ := Environment.lookup_eq_unknown_iff.1 (map_eq_error_iff.1 h)
    exact Or.inl ⟨congrArg Line.lookup hyx, hnone⟩
  | assignment y source =>
    have hsource := map_eq_error_iff.1 h
    cases source with
    | number n => exact absurd hsource (by simp [Source.value])
    | var z =>
      obtain ⟨hzx, hnone⟩ := Environment.lookup_eq_unknown_iff.1 hsource
      exact Or.inr (Or.inl ⟨⟨y, by rw [hzx]⟩, hnone⟩)
  | expression s => exact Or.inr (Or.inr ⟨s, rfl, map_eq_error_iff.1 h⟩)

/-- **An unknown variable is reported truthfully**, and nothing that is looked up before it is
    unknown. -/
theorem asksFirst_of_unknown {line : Text}
    (h : (evaluate mode env line).1 = .error (.unknownVariable x)) :
    env.get? x = none ∧ AsksFirst env x (normalize line) := by
  rw [fst_evaluate, resultOf] at h
  rcases bind_eq_error_iff.1 h with hc | ⟨l, hc, hl⟩
  · exact absurd hc (Line.classify_ne_unknown line)
  · rcases Line.outcome_eq_unknown hl with ⟨hl, hnone⟩ | ⟨⟨y, hl⟩, hnone⟩ | ⟨s, hl, hvalue⟩
    · rw [hl] at hc
      have hline : normalize line = x := Line.eq_of_classify_eq_lookup hc
      rw [hline] at hc ⊢
      exact ⟨hnone, .lookup hc⟩
    · rw [hl] at hc
      have hline : normalize line = y ++ '=' :: x := Line.eq_of_classify_eq_assignment hc
      rw [hline] at hc ⊢
      exact ⟨hnone, .source hc⟩
    · have hs : s = normalize line :=
        Line.eq_of_classify_eq_expression (trimBlanks_normalize line) (hl ▸ hc)
      rw [hl, hs] at hc
      rw [hs] at hvalue
      obtain ⟨hnone, p, us, vs, hp, hscan, hus⟩ := evaluateExpression_eq_unknown hvalue
      refine ⟨hnone, .token hc hp hscan ?_ hus⟩
      intro hx
      exact absurd (hus x hx) (by simp [hnone])

theorem AsksFirst.mem_readsOf {line : Text} (h : AsksFirst env x (normalize line)) :
    x ∈ readsOf line := by
  rw [readsOf]
  generalize normalize line = n at h
  cases h with
  | lookup hc =>
    rw [hc]
    exact List.mem_cons_self
  | source hc =>
    rw [hc]
    exact List.mem_cons_self
  | token hc _ hscan _ _ =>
    rw [hc]
    show x ∈ Token.names (Token.scan n)
    rw [Token.mem_names_iff, hscan]
    exact List.mem_append_right _ List.mem_cons_self

/-- A line that comes to something has found all that it reads. -/
theorem isSome_get?_of_ok {line : Text} {o : Outcome} (h : (evaluate mode env line).1 = .ok o)
    (hx : x ∈ readsOf line) : (env.get? x).isSome = true := by
  rw [fst_evaluate, resultOf] at h
  obtain ⟨l, hc, hl⟩ := bind_eq_ok_iff.1 h
  rw [readsOf, hc] at hx
  cases l with
  | blank => exact absurd hx List.not_mem_nil
  | number n => exact absurd hx List.not_mem_nil
  | lookup y =>
    obtain ⟨v, hv, -⟩ := map_eq_ok_iff.1 hl
    rw [List.mem_singleton.1 hx, Environment.lookup_eq_ok_iff.1 hv]
    rfl
  | assignment y source =>
    obtain ⟨v, hv, -⟩ := map_eq_ok_iff.1 hl
    cases source with
    | number n => exact absurd hx List.not_mem_nil
    | var z =>
      rw [List.mem_singleton.1 hx, Environment.lookup_eq_ok_iff.1 hv]
      rfl
  | expression s =>
    obtain ⟨v, hv, -⟩ := map_eq_ok_iff.1 hl
    obtain ⟨p, hp, hvalue⟩ := bind_eq_ok_iff.1 hv
    obtain ⟨stack, hrun, -⟩ := bind_eq_ok_iff.1 hvalue
    exact Postfix.isSome_get?_of_run hrun
      ((Postfix.var_mem_iff (Fault.lift_eq_ok_iff.1 hp)).2 hx)

end LineCalculator
