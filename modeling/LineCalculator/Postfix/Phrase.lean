import LineCalculator.Postfix

/-!
# Phrases

Any row of numbers, names, operators and closed groups is a phrase, whether or not an expression is
written like that: operands may be missing, or stand side by side. A phrase has a postfix order all
the same. Without operators on its top level it is the row of its operands, groups in their own
order; otherwise the last operator of the lowest precedence on that level splits it, and comes
behind the orders of both sides.

This is the order by recursion on the phrase. It holds nothing back and looks at a whole level at
once, so it shows what the yard, which reads tokens one by one, has to arrive at.
-/

set_option autoImplicit false

namespace LineCalculator

/-- One part of a level: an operand, already in postfix order, or an operator. -/
inductive Part where
  | operand (p : Postfix)
  | op (o : Operator)
  deriving DecidableEq

namespace Part

/-- The items of an operand. -/
def items : Part → Postfix
  | operand p => p
  | op _ => []

/-- Split a level at the last operator of the lowest precedence. -/
def splitLowest : List Part → Option (List Part × Operator × List Part)
  | [] => none
  | operand p :: l =>
    match splitLowest l with
    | some (a, o, b) => some (operand p :: a, o, b)
    | none => none
  | op o :: l =>
    match splitLowest l with
    | some (a, q, b) =>
      if o.precedence < q.precedence then some ([], o, l) else some (op o :: a, q, b)
    | none => some ([], o, l)

/-- A split gives the level back. -/
theorem eq_of_splitLowest {l a b : List Part} {o : Operator}
    (h : splitLowest l = some (a, o, b)) : l = a ++ op o :: b := by
  induction l generalizing a b o with
  | nil => simp [splitLowest] at h
  | cons x l ih =>
    cases x with
    | operand p =>
      simp only [splitLowest] at h
      split at h
      · next a' o' b' he =>
        simp only [Option.some.injEq, Prod.mk.injEq] at h
        obtain ⟨rfl, rfl, rfl⟩ := h
        rw [ih he, List.cons_append]
      · simp at h
    | op q =>
      simp only [splitLowest] at h
      split at h
      · next a' o' b' he =>
        split at h
        · simp only [Option.some.injEq, Prod.mk.injEq] at h
          obtain ⟨rfl, rfl, rfl⟩ := h
          rfl
        · simp only [Option.some.injEq, Prod.mk.injEq] at h
          obtain ⟨rfl, rfl, rfl⟩ := h
          rw [ih he, List.cons_append]
      · simp only [Option.some.injEq, Prod.mk.injEq] at h
        obtain ⟨rfl, rfl, rfl⟩ := h
        rfl

/-- The postfix order of a level. -/
def arrange (l : List Part) : Postfix :=
  match h : splitLowest l with
  | none => l.flatMap items
  | some (a, o, b) => arrange a ++ arrange b ++ [.op o]
termination_by l.length
decreasing_by
  all_goals
    have := congrArg List.length (eq_of_splitLowest h)
    simp at this
    omega

end Part

/-- Numbers, names, operators and closed groups, in any order. -/
inductive Phrase where
  | nil
  | number (digits : Text) (rest : Phrase)
  | name (x : Text) (rest : Phrase)
  | op (o : Operator) (rest : Phrase)
  | group (inner rest : Phrase)

namespace Phrase

/-- The tokens of a phrase. -/
def tokens : Phrase → List Token
  | nil => []
  | number ds rest => .number ds :: rest.tokens
  | name x rest => .name x :: rest.tokens
  | op o rest => .op o :: rest.tokens
  | group inner rest => .leftParen :: inner.tokens ++ .rightParen :: rest.tokens

/-- The top level of a phrase, each group in its own order. -/
def level : Phrase → List Part
  | nil => []
  | number ds rest => .operand [.number (Decimal.numeralValue ds)] :: rest.level
  | name x rest => .operand [.var x] :: rest.level
  | op o rest => .op o :: rest.level
  | group inner rest => .operand (Part.arrange inner.level) :: rest.level

/-- The postfix order of a phrase. -/
def order (p : Phrase) : Postfix := Part.arrange p.level

end Phrase

end LineCalculator
