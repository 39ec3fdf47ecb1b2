import LineCalculator.Expr
import LineCalculator.Postfix.Yard
import LineCalculator.Proofs.Token.Balance
import Mathlib.Data.List.TakeWhile

/-!
# The yard arranges phrases

The yard sees one token at a time and the reference order (`Phrase.order`) a whole level at once.
They are brought together by a third description, `Part.shunt`, which is the yard on one level:
operands in postfix order, a stack of operators, no parentheses and no errors.

1. On a level, shunting is arranging (`shunt_nil`). What an operator of lowest precedence does
   splits the work in two: it sends everything that waits away, and nothing behind it sends it away.
2. On a phrase, the yard shunts (`feedAll_tokens`), and leaves alone what it holds below an opening
   parenthesis. This is the induction over the nesting, so it speaks of any stack below.

Nothing here asks for operands to be where an expression has them. An expression is the case in
which the order of the phrase is a postorder (`Writes.exists_phrase`).
-/

set_option autoImplicit false

namespace LineCalculator

namespace Part

/-! ## One level -/

/-- What leaves the yard on one level while the operators `held` wait, the most recent first. -/
def shunt : List Operator → List Part → Postfix
  | held, [] => held.map .op
  | held, operand p :: l => p ++ shunt held l
  | held, op o :: l =>
    (held.takeWhile fun q => o.precedence ≤ q.precedence).map .op ++
      shunt (o :: held.dropWhile fun q => o.precedence ≤ q.precedence) l

theorem shunt_done (held : List Operator) : shunt held [] = held.map .op := rfl

theorem shunt_operand (held : List Operator) (p : Postfix) (l : List Part) :
    shunt held (operand p :: l) = p ++ shunt held l := rfl

theorem shunt_op (held : List Operator) (o : Operator) (l : List Part) :
    shunt held (op o :: l) = (held.takeWhile fun q => o.precedence ≤ q.precedence).map .op ++
      shunt (o :: held.dropWhile fun q => o.precedence ≤ q.precedence) l := rfl

/-- An operator that binds no tighter than those before it sends all of them away. -/
theorem shunt_append_op {held : List Operator} {a b : List Part} {o : Operator}
    (hheld : ∀ q ∈ held, o.precedence ≤ q.precedence)
    (ha : ∀ q, op q ∈ a → o.precedence ≤ q.precedence) :
    shunt held (a ++ op o :: b) = shunt held a ++ shunt [o] b := by
  induction a generalizing held with
  | nil =>
    have htake : (held.takeWhile fun q => decide (o.precedence ≤ q.precedence)) = held :=
      List.takeWhile_eq_self_iff.2 (by simpa using hheld)
    have hdrop : (held.dropWhile fun q => decide (o.precedence ≤ q.precedence)) = [] :=
      List.dropWhile_eq_nil_iff.2 (by simpa using hheld)
    rw [List.nil_append, shunt_op, htake, hdrop, shunt_done]
  | cons x a ih =>
    have ha' : ∀ q, op q ∈ a → o.precedence ≤ q.precedence :=
      fun q hq => ha q (List.mem_cons_of_mem x hq)
    cases x with
    | operand p =>
      rw [List.cons_append, shunt_operand, shunt_operand, ih hheld ha', List.append_assoc]
    | op r =>
      rw [List.cons_append, shunt_op, shunt_op, ih ?_ ha', List.append_assoc]
      intro q hq
      rcases List.mem_cons.1 hq with rfl | hq
      · exact ha q List.mem_cons_self
      · exact hheld q ((List.dropWhile_sublist _).subset hq)

/-- An operator below those that bind tighter waits to the end. -/
theorem shunt_concat {held : List Operator} {b : List Part} {o : Operator}
    (hb : ∀ q, op q ∈ b → o.precedence < q.precedence) :
    shunt (held ++ [o]) b = shunt held b ++ [.op o] := by
  induction b generalizing held with
  | nil => simp [shunt]
  | cons x b ih =>
    have hb' : ∀ q, op q ∈ b → o.precedence < q.precedence :=
      fun q hq => hb q (List.mem_cons_of_mem x hq)
    cases x with
    | operand p => rw [shunt_operand, shunt_operand, ih hb', List.append_assoc]
    | op r =>
      have hr : ¬ r.precedence ≤ o.precedence := Nat.not_le.2 (hb r List.mem_cons_self)
      have htake : ((held ++ [o]).takeWhile fun q => decide (r.precedence ≤ q.precedence)) =
          held.takeWhile fun q => decide (r.precedence ≤ q.precedence) := by
        rw [List.takeWhile_append]
        split
        · next hlen =>
          have heq := (List.takeWhile_prefix _).eq_of_length hlen
          rw [heq, List.takeWhile_cons_of_neg (by simpa using hr), List.append_nil]
        · rfl
      have hdrop : ((held ++ [o]).dropWhile fun q => decide (r.precedence ≤ q.precedence)) =
          (held.dropWhile fun q => decide (r.precedence ≤ q.precedence)) ++ [o] := by
        rw [List.dropWhile_append]
        split
        · next hnil =>
          rw [List.isEmpty_iff.1 hnil, List.dropWhile_cons_of_neg (by simpa using hr),
            List.nil_append]
        · rfl
      rw [shunt_op, shunt_op, htake, hdrop, ← List.cons_append, ih hb', List.append_assoc]

/-- Around an operator of lowest precedence, the last of its kind, both sides are shunted alone. -/
theorem shunt_nil_append_op {a b : List Part} {o : Operator}
    (ha : ∀ q, op q ∈ a → o.precedence ≤ q.precedence)
    (hb : ∀ q, op q ∈ b → o.precedence < q.precedence) :
    shunt [] (a ++ op o :: b) = shunt [] a ++ shunt [] b ++ [.op o] := by
  rw [shunt_append_op (by simp) ha, ← List.nil_append [o], shunt_concat hb, List.append_assoc]

theorem shunt_of_no_op {held : List Operator} {l : List Part} (h : ∀ o, op o ∉ l) :
    shunt held l = l.flatMap items ++ held.map .op := by
  induction l with
  | nil => rfl
  | cons x l ih =>
    cases x with
    | operand p =>
      rw [shunt_operand, ih fun o ho => h o (List.mem_cons_of_mem _ ho), List.flatMap_cons,
        List.append_assoc, items]
    | op o => exact absurd List.mem_cons_self (h o)

/-! ### The split of the reference order -/

theorem no_op_of_splitLowest {l : List Part} (h : splitLowest l = none) : ∀ o, op o ∉ l := by
  induction l with
  | nil => simp
  | cons x l ih =>
    cases x with
    | operand p =>
      simp only [splitLowest] at h
      split at h
      · exact absurd h (by simp)
      · next hl => simpa using ih hl
    | op o =>
      simp only [splitLowest] at h
      split at h
      · split at h <;> exact absurd h (by simp)
      · exact absurd h (by simp)

/-- The operator of a split is a lowest one, and the last of these. -/
theorem precedence_of_splitLowest {l a b : List Part} {o : Operator}
    (h : splitLowest l = some (a, o, b)) :
    (∀ q, op q ∈ a → o.precedence ≤ q.precedence) ∧
      ∀ q, op q ∈ b → o.precedence < q.precedence := by
  induction l generalizing a o b with
  | nil => exact absurd h (by simp [splitLowest])
  | cons x l ih =>
    cases x with
    | operand p =>
      simp only [splitLowest] at h
      split at h
      · next a' o' b' hl =>
        simp only [Option.some.injEq, Prod.mk.injEq] at h
        obtain ⟨rfl, rfl, rfl⟩ := h
        obtain ⟨ha, hb⟩ := ih hl
        exact ⟨fun q hq => ha q (by simpa using hq), hb⟩
      · exact absurd h (by simp)
    | op r =>
      simp only [splitLowest] at h
      split at h
      · next a' o' b' hl =>
        obtain ⟨ha, hb⟩ := ih hl
        split at h
        · next hlt =>
          simp only [Option.some.injEq, Prod.mk.injEq] at h
          obtain ⟨rfl, rfl, rfl⟩ := h
          refine ⟨by simp, fun q hq => ?_⟩
          -- Behind `r` stands nothing lower than the lowest operator there, which is above `r`.
          rw [eq_of_splitLowest hl, List.mem_append, List.mem_cons] at hq
          rcases hq with hq | hq | hq
          · exact Nat.lt_of_lt_of_le hlt (ha q hq)
          · obtain rfl := Part.op.inj hq
            exact hlt
          · exact Nat.lt_trans hlt (hb q hq)
        · next hge =>
          simp only [Option.some.injEq, Prod.mk.injEq] at h
          obtain ⟨rfl, rfl, rfl⟩ := h
          refine ⟨fun q hq => ?_, hb⟩
          rcases List.mem_cons.1 hq with hq | hq
          · obtain rfl := Part.op.inj hq
            exact Nat.not_lt.1 hge
          · exact ha q hq
      · next hl =>
        simp only [Option.some.injEq, Prod.mk.injEq] at h
        obtain ⟨rfl, rfl, rfl⟩ := h
        exact ⟨by simp, fun q hq => absurd hq (no_op_of_splitLowest hl q)⟩

/-- **On a level, shunting is arranging.** -/
theorem shunt_nil (l : List Part) : shunt [] l = arrange l := by
  induction l using arrange.induct with
  | case1 l h =>
    rw [shunt_of_no_op (no_op_of_splitLowest h), arrange, List.map_nil, List.append_nil]
    split
    · rfl
    · next h' => exact absurd (h.symm.trans h') (by simp)
  | case2 l a o b h iha ihb =>
    obtain ⟨ha, hb⟩ := precedence_of_splitLowest h
    rw [arrange]
    split
    · next h' => exact absurd (h'.symm.trans h) (by simp)
    · next a' o' b' h' =>
      obtain ⟨rfl, rfl, rfl⟩ : a = a' ∧ o = o' ∧ b = b' := by simpa using h.symm.trans h'
      rw [← iha, ← ihb, ← shunt_nil_append_op ha hb, ← eq_of_splitLowest h]

theorem arrange_append_op {a b : List Part} {o : Operator}
    (ha : ∀ q, op q ∈ a → o.precedence ≤ q.precedence)
    (hb : ∀ q, op q ∈ b → o.precedence < q.precedence) :
    arrange (a ++ op o :: b) = arrange a ++ arrange b ++ [.op o] := by
  rw [← shunt_nil, ← shunt_nil, ← shunt_nil, shunt_nil_append_op ha hb]

theorem arrange_singleton (p : Postfix) : arrange [operand p] = p := by
  rw [← shunt_nil, shunt_operand, shunt_done, List.map_nil, List.append_nil]

end Part

namespace Yard

/-! ## The yard on a phrase -/

/-- Nothing is held, or the start of a group is on top: no operator of this level can leave. -/
def Shielded (below : List Held) : Prop := ∀ o rest, below ≠ .op o :: rest

theorem shielded_nil : Shielded [] := by
  intro o rest
  exact List.cons_ne_nil _ _ |>.symm

theorem shielded_group (held : List Held) : Shielded (.group :: held) := by
  intro o rest h
  exact absurd (List.cons.inj h).1 (by simp)

/-- The two early cases of taking in an operator are cases of the general rule. -/
theorem pushOperator_eq (y : Yard) (o : Operator) :
    y.pushOperator o = (release o y.held y.output).hold (.op o) := by
  obtain ⟨held, out⟩ := y
  match held with
  | [] => rfl
  | .group :: held => rfl
  | .op q :: held =>
    by_cases h : q.precedence < o.precedence
    · have hle : ¬ o.precedence ≤ q.precedence := Nat.not_le.2 h
      simp [pushOperator, release, h, hle]
    · simp [pushOperator, h]

theorem release_eq {o : Operator} {held : List Operator} {below : List Held} {out : List Item}
    (hb : Shielded below) :
    release o (held.map .op ++ below) out =
      ⟨(held.dropWhile fun q => o.precedence ≤ q.precedence).map .op ++ below,
        ((held.takeWhile fun q => o.precedence ≤ q.precedence).map .op).reverse ++ out⟩ := by
  induction held generalizing out with
  | nil =>
    match below with
    | [] => rfl
    | .group :: below => rfl
    | .op q :: below => exact absurd rfl (hb q below)
  | cons q held ih =>
    rw [List.map_cons, List.cons_append, release]
    by_cases h : o.precedence ≤ q.precedence
    · rw [if_pos h, ih, List.dropWhile_cons_of_pos (by simpa using h),
        List.takeWhile_cons_of_pos (by simpa using h), List.map_cons, List.reverse_cons,
        List.append_assoc, List.singleton_append]
    · rw [if_neg h, List.dropWhile_cons_of_neg (by simpa using h),
        List.takeWhile_cons_of_neg (by simpa using h)]
      rfl

theorem close_eq (held : List Operator) (below : List Held) (out : List Item) :
    close (held.map .op ++ .group :: below) out =
      .ok ⟨below, (held.map .op).reverse ++ out⟩ := by
  induction held generalizing out with
  | nil => rfl
  | cons q held ih =>
    rw [List.map_cons, List.cons_append, close, ih, List.map_cons, List.reverse_cons,
      List.append_assoc, List.singleton_append]

theorem drain_eq (held : List Operator) (out : List Item) :
    drain (held.map .op) out = .ok (out.reverse ++ held.map .op) := by
  induction held generalizing out with
  | nil => exact congrArg Except.ok (List.append_nil _).symm
  | cons q held ih =>
    rw [List.map_cons, drain, ih, List.map_cons, List.reverse_cons, List.append_assoc,
      List.singleton_append]

/-- **On a phrase, the yard shunts.** Whatever is held below the level stays, and what has left,
    followed by what still waits on the level, is what left before followed by the shunted level. -/
theorem feedAll_tokens (p : Phrase) (held : List Operator) {below : List Held} (out : List Item)
    (hb : Shielded below) :
    ∃ (held' : List Operator) (out' : List Item),
      feedAll ⟨held.map .op ++ below, out⟩ p.tokens = .ok ⟨held'.map .op ++ below, out'⟩ ∧
        out'.reverse ++ held'.map .op = out.reverse ++ Part.shunt held p.level := by
  induction p generalizing held below out with
  | nil => exact ⟨held, out, rfl, rfl⟩
  | number ds rest ih =>
    obtain ⟨held', out', hfeed, hout⟩ := ih held (.number (Decimal.numeralValue ds) :: out) hb
    refine ⟨held', out', hfeed, ?_⟩
    rw [hout, Phrase.level, Part.shunt_operand, List.reverse_cons, List.append_assoc]
  | name x rest ih =>
    obtain ⟨held', out', hfeed, hout⟩ := ih held (.var x :: out) hb
    refine ⟨held', out', hfeed, ?_⟩
    rw [hout, Phrase.level, Part.shunt_operand, List.reverse_cons, List.append_assoc]
  | op o rest ih =>
    obtain ⟨held', out', hfeed, hout⟩ := ih
      (o :: held.dropWhile fun q => o.precedence ≤ q.precedence)
      (((held.takeWhile fun q => o.precedence ≤ q.precedence).map .op).reverse ++ out) hb
    refine ⟨held', out', ?_, ?_⟩
    · rw [Phrase.tokens, feedAll_cons, feed, pushOperator_eq, release_eq hb]
      exact hfeed
    · rw [hout, Phrase.level, Part.shunt_op, List.reverse_append, List.reverse_reverse,
        List.append_assoc]
  | group inner rest ihi ihr =>
    -- Inside, the level starts with nothing waiting, above the parenthesis and all that it shields.
    obtain ⟨heldi, outi, hfeedi, houti⟩ := ihi [] out (shielded_group (held.map .op ++ below))
    obtain ⟨held', out', hfeed, hout⟩ := ihr held ((heldi.map .op).reverse ++ outi) hb
    refine ⟨held', out', ?_, ?_⟩
    · rw [Phrase.tokens, List.cons_append, feedAll_cons, feed]
      show feedAll ⟨[].map .op ++ .group :: (held.map .op ++ below), out⟩
        (inner.tokens ++ .rightParen :: rest.tokens) = _
      rw [feedAll_append, hfeedi]
      show feedAll _ (.rightParen :: rest.tokens) = _
      rw [feedAll_cons, feed, close_eq]
      exact hfeed
    · rw [hout, Phrase.level, Part.shunt_operand, List.reverse_append, List.reverse_reverse,
        houti, Part.shunt_nil, List.append_assoc]

end Yard

namespace Postfix

/-- The yard turns the tokens of a phrase into the order of the phrase. -/
theorem ofTokens_tokens (p : Phrase) : ofTokens p.tokens = .ok p.order := by
  obtain ⟨held, out, hfeed, hout⟩ := Yard.feedAll_tokens p [] [] Yard.shielded_nil
  have hempty : Yard.empty = ⟨[].map .op ++ [], []⟩ := rfl
  rw [ofTokens, hempty, hfeed, List.append_nil]
  show Yard.drain (held.map .op) out = _
  rw [Yard.drain_eq, hout, Part.shunt_nil]
  rfl

end Postfix

/-! ## Expressions -/

/-- The tokens mean the expression, and no operator outside their parentheses has a precedence below
    `k`. Parentheses may stand around any part. -/
inductive Writes : Nat → Expr → List Token → Prop
  | number {k : Nat} (ds : Text) : Writes k (.number (Decimal.numeralValue ds)) [.number ds]
  | name {k : Nat} (x : Text) : Writes k (.var x) [.name x]
  | group {k : Nat} {e : Expr} {ts : List Token} :
    Writes 0 e ts → Writes k e (.leftParen :: ts ++ [.rightParen])
  | binary {k : Nat} {o : Operator} {l r : Expr} {ts us : List Token} :
    k ≤ o.precedence → Writes o.precedence l ts → Writes (o.precedence + 1) r us →
    Writes k (.binary o l r) (ts ++ .op o :: us)

/-- The tokens of an expression form a phrase whose order is the postorder. The bound on the
    precedences is what makes the operator of the tree the split of the level. -/
theorem Writes.exists_phrase {k : Nat} {e : Expr} {ts : List Token} (h : Writes k e ts) :
    ∃ p : Phrase, p.tokens = ts ∧ p.order = e.postorder ∧
      ∀ o, .op o ∈ p.level → k ≤ o.precedence := by
  induction h with
  | number ds =>
    refine ⟨.number ds .nil, rfl, Part.arrange_singleton _, fun o ho => ?_⟩
    exact absurd ho (by simp [Phrase.level])
  | name x =>
    refine ⟨.name x .nil, rfl, Part.arrange_singleton _, fun o ho => ?_⟩
    exact absurd ho (by simp [Phrase.level])
  | group _ ih =>
    obtain ⟨p, rfl, hp, -⟩ := ih
    refine ⟨.group p .nil, rfl, ?_, fun o ho => ?_⟩
    · rw [← hp]
      exact Part.arrange_singleton _
    · exact absurd ho (by simp [Phrase.level])
  | @binary k o l r ts us hk _ _ ihl ihr =>
    obtain ⟨p, rfl, hp, hpl⟩ := ihl
    obtain ⟨q, rfl, hq, hql⟩ := ihr
    refine ⟨p.append (.op o q), ?_, ?_, fun q' hq' => ?_⟩
    · rw [Phrase.tokens_append, Phrase.tokens]
    · rw [Phrase.order, Phrase.level_append, Phrase.level, Part.arrange_append_op hpl hql,
        ← Phrase.order, ← Phrase.order, hp, hq, Expr.postorder]
    · rw [Phrase.level_append, Phrase.level, List.mem_append, List.mem_cons] at hq'
      rcases hq' with hq' | hq' | hq'
      · exact Nat.le_trans hk (hpl q' hq')
      · obtain rfl := Part.op.inj hq'
        exact hk
      · exact Nat.le_trans hk (Nat.le_of_succ_le (hql q' hq'))

theorem Writes.ofTokens {k : Nat} {e : Expr} {ts : List Token} (h : Writes k e ts) :
    Postfix.ofTokens ts = .ok e.postorder := by
  obtain ⟨p, rfl, hp, -⟩ := h.exists_phrase
  rw [Postfix.ofTokens_tokens, hp]

/-- **The yard agrees with the grammar.** Tokens in balanced parentheses, none of them an equals
    sign or an unknown word, form one phrase, and a text with these tokens is converted to the order
    of the phrase; if the tokens write an expression, that is the postorder of the expression. -/
theorem Postfix.ofText_eq_order (s : Text) :
    ((∀ t ∈ Token.scan s, t.isForeign = false) → Token.Balanced (Token.scan s) →
      ∃ p : Phrase, (∀ q : Phrase, q.tokens = Token.scan s ↔ q = p) ∧ ofText s = .ok p.order) ∧
    ∀ e : Expr, Writes 0 e (Token.scan s) → ofText s = .ok e.postorder := by
  refine ⟨fun hts hb => ?_, fun e he => he.ofTokens⟩
  obtain ⟨p, hp⟩ := Phrase.exists_tokens_eq_iff.2 ⟨hts, hb⟩
  refine ⟨p, fun q => ⟨fun hq => ?_, fun hq => ?_⟩, ?_⟩
  · exact Phrase.tokens_injective (hq.trans hp.symm)
  · rw [hq, hp]
  · rw [ofText, ← hp, ofTokens_tokens]

/-- A phrase that is no expression: operands stand side by side, groups begin or end with an operator,
    and the last one is empty. -/
theorem Postfix.ofText_eq_order_juxtaposed :
    let s := "2(a+)3*(*b)c-()".toList
    let p : Phrase :=
      .number ['2'] (.group (.name ['a'] (.op .add .nil)) (.number ['3'] (.op .mul
        (.group (.op .mul (.name ['b'] .nil)) (.name ['c'] (.op .sub (.group .nil .nil)))))))
    (∀ t ∈ Token.scan s, t.isForeign = false) ∧ Token.Balanced (Token.scan s) ∧
      (∀ q : Phrase, q.tokens = Token.scan s ↔ q = p) ∧ ofText s = .ok p.order ∧
      p.order = [.number 2, .var ['a'], .op .add, .number 3, .var ['b'], .op .mul, .var ['c'],
        .op .mul, .op .sub] := by
  intro s p
  have htokens : p.tokens = Token.scan s := rfl
  have hforeign : ∀ t ∈ Token.scan s, t.isForeign = false := by decide
  have hbalanced : Token.Balanced (Token.scan s) := htokens ▸ p.balanced_tokens
  obtain ⟨q, hq, htext⟩ := (Postfix.ofText_eq_order s).1 hforeign hbalanced
  have hpq : p = q := (hq p).1 htokens
  rw [← hpq] at hq htext
  refine ⟨hforeign, hbalanced, hq, htext, ?_⟩
  have hitems : ofText s = .ok [.number 2, .var ['a'], .op .add, .number 3, .var ['b'], .op .mul,
      .var ['c'], .op .mul, .op .sub] := rfl
  exact Except.ok.inj (htext.symm.trans hitems)

end LineCalculator
