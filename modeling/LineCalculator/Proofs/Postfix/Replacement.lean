import LineCalculator.Proofs.Outcome.Success
import LineCalculator.Proofs.Postfix.Conservation
import LineCalculator.Proofs.Postfix.Intake
import LineCalculator.Proofs.Postfix.Reading
import LineCalculator.Proofs.Token.Scan

/-!
# A name in place of a group

Whatever stands around it, a group in parentheses may be given a name and the name written in its
place. The conversion then gives the same items, but for the one that is the name, where the items
of the group stand (`ofText_group`); and with the value of the group as the value of the name, the
evaluation comes to the same.

Nothing is asked of the context. It may be no expression, and it may fail. So the argument is not
about expressions but about the yard: it never looks at what has left it. What it does with the
items of the group in its output is what it does with the name there, token by token
(`Yard.feed_replace`), and the items of the group are all that the group leaves behind
(`Yard.feedAll_group`).
-/

set_option autoImplicit false

namespace LineCalculator

/-- The items with `p` in place of each `x`. -/
def Postfix.replace (x : Text) (p q : Postfix) : Postfix :=
  q.flatMap fun i => if i = .var x then p else [i]

/-- The yard with `p` in place of each `x` among the items that have left it. These are kept from
    the last to the first. -/
def Yard.replace (x : Text) (p : Postfix) (y : Yard) : Yard :=
  { y with output := Postfix.replace x p.reverse y.output }

namespace Postfix

variable {x : Text} {p : Postfix}

@[simp] theorem replace_nil : replace x p [] = [] := rfl

theorem replace_cons_of_ne {i : Item} (h : i ≠ .var x) (q : Postfix) :
    replace x p (i :: q) = i :: replace x p q := by
  simp [replace, h]

theorem replace_cons_self (q : Postfix) : replace x p (.var x :: q) = p ++ replace x p q := by
  simp [replace]

theorem replace_append (q r : Postfix) :
    replace x p (q ++ r) = replace x p q ++ replace x p r :=
  List.flatMap_append

theorem replace_of_not_mem {q : Postfix} (h : .var x ∉ q) : replace x p q = q := by
  induction q with
  | nil => rfl
  | cons i q ih =>
    obtain ⟨hi, hq⟩ := not_or.1 (mt List.mem_cons.2 h)
    rw [replace_cons_of_ne (Ne.symm hi), ih hq]

theorem reverse_replace (q : Postfix) :
    (replace x p q).reverse = replace x p.reverse q.reverse := by
  induction q with
  | nil => rfl
  | cons i q ih =>
    rw [List.reverse_cons, replace_append, ← ih]
    by_cases hi : i = .var x
    · rw [hi, replace_cons_self, replace_cons_self, List.reverse_append, replace_nil,
        List.append_nil]
    · rw [replace_cons_of_ne hi, replace_cons_of_ne hi, List.reverse_cons, replace_nil]

end Postfix

/-! ## The yard does not look at its output -/

namespace Yard

variable {x : Text} {p : Postfix}

theorem release_replace (o : Operator) (held : List Held) (out : List Item) :
    release o held (Postfix.replace x p.reverse out) = (release o held out).replace x p := by
  induction held generalizing out with
  | nil => rfl
  | cons h held ih =>
    cases h with
    | group => rfl
    | op q =>
      rw [release, release, ← Postfix.replace_cons_of_ne (by simp)]
      by_cases hle : o.precedence ≤ q.precedence
      · rw [if_pos hle, if_pos hle, ih]
      · rw [if_neg hle, if_neg hle]
        rfl

theorem close_replace (held : List Held) (out : List Item) :
    close held (Postfix.replace x p.reverse out) = (close held out).map (replace x p) := by
  induction held generalizing out with
  | nil => rfl
  | cons h held ih =>
    cases h with
    | group => rfl
    | op q => rw [close, close, ← Postfix.replace_cons_of_ne (by simp), ih]

theorem drain_replace (held : List Held) (out : List Item) :
    drain held (Postfix.replace x p.reverse out) = (drain held out).map (Postfix.replace x p) := by
  induction held generalizing out with
  | nil =>
    have hreverse := Postfix.reverse_replace (x := x) (p := p.reverse) out
    rw [List.reverse_reverse] at hreverse
    exact congrArg Except.ok hreverse
  | cons h held ih =>
    cases h with
    | group => rfl
    | op q => rw [drain, drain, ← Postfix.replace_cons_of_ne (by simp), ih]

theorem emit_replace {i : Item} (hi : i ≠ .var x) (y : Yard) :
    (y.replace x p).emit i = (y.emit i).replace x p := by
  simp only [emit, replace, Postfix.replace_cons_of_ne hi]

/-- Every token but the name itself does the same whether the name or the items stand there. -/
theorem feed_replace {t : Token} (ht : t ≠ .name x) (y : Yard) :
    (y.replace x p).feed t = (y.feed t).map (replace x p) := by
  cases t with
  | number ds => exact congrArg Except.ok (emit_replace (by simp) y)
  | name z =>
    have hz : Item.var z ≠ .var x := by
      intro h
      exact ht (congrArg Token.name (Item.var.inj h))
    exact congrArg Except.ok (emit_replace hz y)
  | leftParen => rfl
  | rightParen => exact close_replace y.held y.output
  | op o =>
    rw [feed, feed, pushOperator_eq, pushOperator_eq]
    exact congrArg (fun z => Except.ok (hold z (.op o))) (release_replace o y.held y.output)
  | equals => rfl
  | unknown w => rfl

theorem feedAll_replace {ts : List Token} (hts : .name x ∉ ts) (y : Yard) :
    (y.replace x p).feedAll ts = (y.feedAll ts).map (replace x p) := by
  induction ts generalizing y with
  | nil => rfl
  | cons t ts ih =>
    obtain ⟨ht, hts⟩ := not_or.1 (mt List.mem_cons.2 hts)
    rw [feedAll_cons, feedAll_cons, feed_replace (Ne.symm ht)]
    cases y.feed t with
    | error f => rfl
    | ok z => exact ih hts z

/-! ## What a group leaves -/

/-- A closed group leaves the items of what is in it, and nothing else changes. -/
theorem feedAll_group {ts : List Token} (h : Postfix.ofTokens ts = .ok p) (y : Yard) :
    y.feedAll (.leftParen :: ts ++ [.rightParen]) = .ok ⟨y.held, p.reverse ++ y.output⟩ := by
  obtain ⟨q, hts, hq⟩ := Postfix.ofTokens_eq_ok_iff.1 h
  obtain ⟨held, out, hfeed, hout⟩ := feedAll_tokens q [] y.output (shielded_group y.held)
  have hclose : (held.map Item.op).reverse ++ out = p.reverse ++ y.output := by
    have hreverse := congrArg List.reverse hout
    rw [Part.shunt_nil, List.reverse_append, List.reverse_append, List.reverse_reverse,
      List.reverse_reverse] at hreverse
    rw [hreverse, ← hq, Phrase.order]
  rw [← hts, List.cons_append, feedAll_cons, feed]
  show feedAll ⟨[].map .op ++ .group :: y.held, y.output⟩ (q.tokens ++ [.rightParen]) = _
  rw [feedAll_append, hfeed]
  show (close (held.map .op ++ .group :: y.held) out).bind _ = _
  rw [close_eq, hclose]
  rfl

end Yard

namespace Postfix

variable {x : Text} {p : Postfix}

/-- Every name leaves the yard as often as it came. -/
theorem count_var_of_ofTokens {ts : List Token} {q : Postfix} (h : ofTokens ts = .ok q) :
    q.count (.var x) = ts.count (.name x) := by
  rw [(perm_of_ofTokens h).count_eq, List.count_filterMap, List.count]
  refine List.countP_congr ?_
  intro t _
  rw [beq_iff_eq, beq_iff_eq]
  exact Token.item?_eq_var_iff

/-- On tokens: a group, or a name that stands nowhere else. -/
theorem ofTokens_group {ts us vs : List Token} (h : ofTokens ts = .ok p) (hus : .name x ∉ us)
    (hvs : .name x ∉ vs) :
    ofTokens (us ++ (.leftParen :: ts ++ [.rightParen]) ++ vs) =
      (ofTokens (us ++ .name x :: vs)).map (replace x p) := by
  rw [ofTokens, ofTokens, List.append_assoc, Yard.feedAll_append, Yard.feedAll_append]
  cases hfeed : Yard.empty.feedAll us with
  | error f => rfl
  | ok y =>
    have hfree : .var x ∉ y.output := by
      intro hmem
      have hcontents := Yard.contents_of_feedAll hfeed
      have hitem : .var x ∈ us.filterMap Token.item? ++ [] :=
        hcontents.subset (List.mem_append_left _ hmem)
      rw [List.append_nil] at hitem
      obtain ⟨t, ht, htx⟩ := List.mem_filterMap.1 hitem
      rw [Token.item?_eq_var_iff.1 htx] at ht
      exact hus ht
    -- The yard behind the group is the yard behind the name, with the items in its place.
    have hgroup : (⟨y.held, p.reverse ++ y.output⟩ : Yard) = (y.emit (.var x)).replace x p := by
      simp only [Yard.replace, Yard.emit, replace_cons_self, replace_of_not_mem hfree]
    show ((y.feedAll (.leftParen :: ts ++ [.rightParen] ++ vs)).bind _) =
      Except.map _ (((y.emit (.var x)).feedAll vs).bind _)
    rw [Yard.feedAll_append, Yard.feedAll_group h, hgroup]
    show ((((y.emit (.var x)).replace x p).feedAll vs).bind _) = _
    rw [Yard.feedAll_replace hvs]
    cases (y.emit (.var x)).feedAll vs with
    | error f => rfl
    | ok z => exact Yard.drain_replace z.held z.output

end Postfix

/-! ## The value of the group as the value of the name -/

section

variable {mode : PowerMode} {env : Environment} {x : Text} {p : Postfix} {w : Int}

theorem Environment.lookup_define_self : (env.define x w).lookup x = .ok w := by
  simp [lookup]

/-- Only the variable itself looks at its value. -/
theorem Item.step_define_of_ne {i : Item} (hi : i ≠ .var x) (stack : List Int) :
    i.step mode (env.define x w) stack = i.step mode env stack := by
  apply step_congr
  intro z hz
  have hne : x ≠ z := by
    intro h
    exact hi (hz.trans (congrArg Item.var h.symm))
  rw [env.get?_define, if_neg hne]

namespace Postfix

/-- A sequence with a value pushes it, whatever is on the stack already. -/
theorem run_of_evaluate (h : p.evaluate mode env = .ok w) (stack : List Int) :
    run mode env stack p = .ok (w :: stack) := by
  obtain ⟨e, hp, he⟩ := evaluate_eq_ok_iff.1 h
  rw [hp, Expr.run_postorder, he]
  rfl

theorem run_replace (h : p.evaluate mode env = .ok w) (stack : List Int) (q : Postfix) :
    run mode env stack (replace x p q) = run mode (env.define x w) stack q := by
  induction q generalizing stack with
  | nil => rfl
  | cons i q ih =>
    by_cases hi : i = .var x
    · rw [hi, replace_cons_self, run_append, run_of_evaluate h, run_cons, Item.step,
        Environment.lookup_define_self]
      exact ih (w :: stack)
    · rw [replace_cons_of_ne hi, run_cons, run_cons, Item.step_define_of_ne hi]
      cases i.step mode env stack with
      | error e => rfl
      | ok s => exact ih s

theorem evaluate_replace (h : p.evaluate mode env = .ok w) (q : Postfix) :
    (replace x p q).evaluate mode env = q.evaluate mode (env.define x w) := by
  rw [evaluate, evaluate, run_replace h]

end Postfix

end

/-! ## In a text -/

theorem Token.scan_name {u v x : Text} (hu : u.AfterBoundary) (hv : v.AtBoundary)
    (hx : x.isName = true) : scan (u ++ x ++ v) = scan u ++ .name x :: scan v := by
  have hword := Text.isWord_of_isName hx
  rw [List.append_assoc, scan_append_of_afterBoundary hu,
    scan_append hword.1 hword.isBoundary_of_mem hv, ofPiece_name hx]

/-- **A group may be given a name.** Between any two texts that end and begin at a boundary, a
    group in parentheses is converted as a name that stands nowhere in the two texts is, except that
    the items of the group stand where the name, once, would stand; the errors are the same. And if
    the group has a value, the whole evaluates as it would with the name, defined as that value. -/
theorem ofText_group {s u v x : Text} {p : Postfix} (hs : Postfix.ofText s = .ok p)
    (hu : u.AfterBoundary) (hv : v.AtBoundary) (hx : x.isName = true)
    (hxu : .name x ∉ Token.scan u) (hxv : .name x ∉ Token.scan v) :
    Postfix.ofText (u ++ '(' :: s ++ ')' :: v) =
      (Postfix.ofText (u ++ x ++ v)).map (Postfix.replace x p) ∧
    (∀ q, Postfix.ofText (u ++ x ++ v) = .ok q → q.count (.var x) = 1) ∧
    ∀ (mode : PowerMode) (env : Environment) (w : Int), p.evaluate mode env = .ok w →
      evaluateExpression mode env (u ++ '(' :: s ++ ')' :: v) =
        evaluateExpression mode (env.define x w) (u ++ x ++ v) := by
  have hreplace : Postfix.ofText (u ++ '(' :: s ++ ')' :: v) =
      (Postfix.ofText (u ++ x ++ v)).map (Postfix.replace x p) := by
    rw [Postfix.ofText, Postfix.ofText, Token.scan_group, Token.scan_name hu hv hx]
    exact Postfix.ofTokens_group hs hxu hxv
  refine ⟨hreplace, ?_, ?_⟩
  · intro q hq
    rw [Postfix.ofText, Token.scan_name hu hv hx] at hq
    rw [Postfix.count_var_of_ofTokens hq, List.count_append, List.count_cons_self,
      List.count_eq_zero.2 hxu, List.count_eq_zero.2 hxv]
  · intro mode env w hw
    rw [evaluateExpression, evaluateExpression, hreplace]
    cases Postfix.ofText (u ++ x ++ v) with
    | error f => rfl
    | ok q => exact Postfix.evaluate_replace hw q

/-- The group may use the name itself: its value is found before the name is defined. -/
theorem ofText_group_scaled_sum :
    Postfix.ofText "2*(x+1)-a".toList =
        .ok [.number 2, .var ['x'], .number 1, .op .add, .op .mul, .var ['a'], .op .sub] ∧
      evaluateExpression .exact ((Environment.empty.define ['a'] 3).define ['x'] 4)
          "2*(x+1)-a".toList =
        evaluateExpression .exact
          (((Environment.empty.define ['a'] 3).define ['x'] 4).define ['x'] 5) "2*x-a".toList := by
  have hs : Postfix.ofText "x+1".toList = .ok [.var ['x'], .number 1, .op .add] := rfl
  have hw : Postfix.evaluate .exact ((Environment.empty.define ['a'] 3).define ['x'] 4)
      [.var ['x'], .number 1, .op .add] = .ok 5 := rfl
  have hu : Text.AfterBoundary "2*".toList := Text.afterBoundary_concat rfl ['2']
  have hv : Text.AtBoundary "-a".toList := Text.atBoundary_cons rfl ['a']
  have hx : Text.isName ['x'] = true := rfl
  obtain ⟨hitems, -, hvalue⟩ := ofText_group hs hu hv hx (by decide) (by decide)
  exact ⟨hitems, hvalue _ _ 5 hw⟩

end LineCalculator
