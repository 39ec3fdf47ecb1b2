import LineCalculator.Proofs.Postfix.Reading
import LineCalculator.Proofs.Postfix.Shunting
import LineCalculator.Token
import Mathlib.Data.List.Chain

/-!
# Expressions among the phrases

A phrase is an expression if operands and operators take turns. One half of this can be counted: an
expression has one operand more than it has operators, and so has every group in it. The count of
the whole does not tell where the operands are: in `1 (+ 2)` it is right for the phrase and wrong
for the group, and in `1 2 +` it is right although nothing takes turns.

What is missing is only that no two operands stand side by side (`OperandsApart`). Then every
operator that lacks an operand lowers the count and nothing can raise it again, and so the count of
the whole is enough (`isInfix_tokens_iff`). The induction is over the phrase, and where an operator
is expected next it needs a second statement, about the rest of an expression behind an operand.
-/

set_option autoImplicit false

namespace LineCalculator

namespace Token

/-- An operand can end with the token. -/
def endsOperand : Token → Bool
  | number _ | name _ | rightParen => true
  | _ => false

/-- An operand can start with the token. -/
def startsOperand : Token → Bool
  | number _ | name _ | leftParen => true
  | _ => false

end Token

/-- No two operands stand side by side. -/
def OperandsApart (ts : List Token) : Prop :=
  ts.IsChain fun a b => ¬ (a.endsOperand = true ∧ b.startsOperand = true)

instance (ts : List Token) : Decidable (OperandsApart ts) :=
  inferInstanceAs (Decidable (ts.IsChain fun a b =>
    ¬ (a.endsOperand = true ∧ b.startsOperand = true)))

/-! ## The count of a level -/

namespace Part

/-- By how much a level changes the number of outstanding values. -/
def surplus : List Part → Int
  | [] => 0
  | operand p :: l => p.surplus + surplus l
  | op _ :: l => surplus l - 1

theorem surplus_append (a b : List Part) : surplus (a ++ b) = surplus a + surplus b := by
  induction a with
  | nil => simp [surplus]
  | cons x a ih => cases x <;> simp only [List.cons_append, surplus, ih] <;> omega

theorem surplus_map_op (held : List Operator) :
    Postfix.surplus (held.map .op) = -(held.length : Int) := by
  induction held with
  | nil => rfl
  | cons q held ih =>
    rw [List.map_cons, Postfix.surplus, ih, List.length_cons]
    omega

/-- Shunting only moves operators. -/
theorem surplus_shunt (held : List Operator) (l : List Part) :
    (shunt held l).surplus = surplus l - held.length := by
  induction l generalizing held with
  | nil =>
    rw [shunt_done, surplus_map_op, surplus]
    omega
  | cons x l ih =>
    cases x with
    | operand p =>
      rw [shunt_operand, Postfix.surplus_append, ih, surplus]
      omega
    | op o =>
      have hlen := congrArg List.length
        (List.takeWhile_append_dropWhile (p := fun q => o.precedence ≤ q.precedence) (l := held))
      rw [List.length_append] at hlen
      rw [shunt_op, Postfix.surplus_append, surplus_map_op, ih, surplus, List.length_cons]
      omega

theorem surplus_arrange (l : List Part) : (arrange l).surplus = surplus l := by
  rw [← shunt_nil, surplus_shunt, List.length_nil]
  omega

end Part

namespace Phrase

/-! ## The count of a phrase -/

theorem surplus_order (p : Phrase) : p.order.surplus = Part.surplus p.level :=
  Part.surplus_arrange p.level

@[simp] theorem surplus_order_nil : nil.order.surplus = 0 := surplus_order nil

@[simp] theorem surplus_order_number (ds : Text) (rest : Phrase) :
    (number ds rest).order.surplus = rest.order.surplus + 1 := by
  rw [surplus_order, surplus_order, level, Part.surplus, Int.add_comm]
  rfl

@[simp] theorem surplus_order_name (x : Text) (rest : Phrase) :
    (name x rest).order.surplus = rest.order.surplus + 1 := by
  rw [surplus_order, surplus_order, level, Part.surplus, Int.add_comm]
  rfl

@[simp] theorem surplus_order_op (o : Operator) (rest : Phrase) :
    (op o rest).order.surplus = rest.order.surplus - 1 := by
  rw [surplus_order, surplus_order, level, Part.surplus]

@[simp] theorem surplus_order_group (inner rest : Phrase) :
    (group inner rest).order.surplus = inner.order.surplus + rest.order.surplus := by
  rw [surplus_order rest, surplus_order, level, Part.surplus, order]

theorem surplus_order_append (p q : Phrase) :
    (p.append q).order.surplus = p.order.surplus + q.order.surplus := by
  rw [surplus_order, surplus_order, surplus_order, level_append, Part.surplus_append]

end Phrase

/-! ## From an expression to the count -/

namespace IsInfix

/-- Operators and parentheses stand between any two operands of an expression. -/
theorem operandsApart {ts : List Token} (h : IsInfix ts) : OperandsApart ts := by
  induction h with
  | number ds => exact List.isChain_singleton _
  | name x => exact List.isChain_singleton _
  | @group ts _ ih =>
    refine List.isChain_cons.2 ⟨?_, List.isChain_append.2 ⟨ih, List.isChain_singleton _, ?_⟩⟩
    · intro y _
      exact fun hy => absurd hy.1 (by simp [Token.endsOperand])
    · intro x _ y hy
      obtain rfl : .rightParen = y := by simpa using hy
      exact fun hxy => absurd hxy.2 (by simp [Token.startsOperand])
  | @binary ts us o _ _ ihl ihr =>
    refine List.isChain_append.2 ⟨ihl, List.isChain_cons.2 ⟨?_, ihr⟩, ?_⟩
    · intro y _
      exact fun hy => absurd hy.1 (by simp [Token.endsOperand])
    · intro x _ y hy
      obtain rfl : .op o = y := by simpa using hy
      exact fun hxy => absurd hxy.2 (by simp [Token.startsOperand])

theorem exists_phrase {ts : List Token} (h : IsInfix ts) :
    ∃ p : Phrase, p.tokens = ts ∧ p.order.surplus = 1 := by
  induction h with
  | number ds => exact ⟨.number ds .nil, rfl, by simp⟩
  | name x => exact ⟨.name x .nil, rfl, by simp⟩
  | group _ ih =>
    obtain ⟨p, rfl, hp⟩ := ih
    exact ⟨.group p .nil, rfl, by simp [hp]⟩
  | binary o _ _ ihl ihr =>
    obtain ⟨p, rfl, hp⟩ := ihl
    obtain ⟨q, rfl, hq⟩ := ihr
    refine ⟨p.append (.op o q), Phrase.tokens_append _ _, ?_⟩
    rw [Phrase.surplus_order_append, Phrase.surplus_order_op, hp, hq]
    rfl

end IsInfix

/-! ## From the count to an expression -/

/-- The rest of an expression behind an operand: nothing, or an operator and an expression. -/
def IsInfixRest (ts : List Token) : Prop := ts = [] ∨ ∃ o us, ts = .op o :: us ∧ IsInfix us

/-- An operand and a rest make an expression. -/
theorem IsInfix.append_rest {ts us : List Token} (h : IsInfix ts) (hus : IsInfixRest us) :
    IsInfix (ts ++ us) := by
  rcases hus with rfl | ⟨o, us, rfl, hus⟩
  · rwa [List.append_nil]
  · exact .binary o h hus

namespace Phrase

/-- Where an operand may stand, apart operands never make more than one value too many, and one only
    as an expression. Where none may stand, they make none too many, and break even only as the rest
    of an expression. -/
theorem isInfix_of_operandsApart (p : Phrase) (h : OperandsApart p.tokens) :
    (p.order.surplus ≤ 1 ∧ (p.order.surplus = 1 → IsInfix p.tokens)) ∧
    ((∀ t ∈ p.tokens.head?, t.startsOperand = false) →
      p.order.surplus ≤ 0 ∧ (p.order.surplus = 0 → IsInfixRest p.tokens)) := by
  induction p with
  | nil =>
    rw [surplus_order_nil]
    refine ⟨⟨by decide, ?_⟩, ?_⟩
    · intro hs
      exact absurd hs (by decide)
    · intro _
      exact ⟨by decide, fun _ => Or.inl rfl⟩
  | number _ rest ih | name _ rest ih =>
    obtain ⟨hhead, hrest⟩ := List.isChain_cons.1 h
    obtain ⟨hle, hzero⟩ := (ih hrest).2 fun t ht => by simpa [Token.endsOperand] using hhead t ht
    simp only [surplus_order_number, surplus_order_name]
    refine ⟨⟨by omega, ?_⟩, ?_⟩
    · intro hs
      refine @IsInfix.append_rest [_] rest.tokens ?_ (hzero (by omega))
      constructor
    · intro hstart
      exact absurd (hstart _ rfl) (by simp [Token.startsOperand])
  | op o rest ih =>
    obtain ⟨-, hrest⟩ := List.isChain_cons.1 h
    obtain ⟨hle, hone⟩ := (ih hrest).1
    rw [surplus_order_op]
    refine ⟨⟨by omega, ?_⟩, ?_⟩
    · intro hs
      exact absurd hs (by omega)
    · intro _
      refine ⟨by omega, ?_⟩
      intro hs
      exact Or.inr ⟨o, rest.tokens, rfl, hone (by omega)⟩
  | group inner rest ihi ihr =>
    have hsplit : (group inner rest).tokens =
        .leftParen :: (inner.tokens ++ .rightParen :: rest.tokens) := rfl
    rw [hsplit] at h
    obtain ⟨hinner, htail, -⟩ := List.isChain_append.1 (List.isChain_cons.1 h).2
    obtain ⟨hhead, hrest⟩ := List.isChain_cons.1 htail
    obtain ⟨hlei, honei⟩ := (ihi hinner).1
    obtain ⟨hle, hzero⟩ := (ihr hrest).2 fun t ht => by simpa [Token.endsOperand] using hhead t ht
    rw [surplus_order_group]
    refine ⟨⟨by omega, ?_⟩, ?_⟩
    · intro hs
      have hgroup : IsInfix (.leftParen :: inner.tokens ++ [.rightParen]) :=
        .group (honei (by omega))
      have := hgroup.append_rest (hzero (by omega))
      simpa [hsplit] using this
    · intro hstart
      exact absurd (hstart _ rfl) (by simp [Token.startsOperand])

/-- **An expression is a phrase in which operands stand apart and the count is right.** -/
theorem isInfix_tokens_iff (p : Phrase) :
    IsInfix p.tokens ↔ OperandsApart p.tokens ∧ p.order.surplus = 1 := by
  constructor
  · intro h
    obtain ⟨q, hq, hs⟩ := h.exists_phrase
    obtain rfl := tokens_injective hq
    exact ⟨h.operandsApart, hs⟩
  · rintro ⟨h, hs⟩
    exact (p.isInfix_of_operandsApart h).1.2 hs

end Phrase

end LineCalculator
