import LineCalculator.Proofs.Outcome.Success
import LineCalculator.Proofs.Postfix.Intake

/-!
# The yard loses nothing

What has left the yard and the operators that still wait in it are, together, a rearrangement of the
tokens taken in, parentheses apart (`Yard.contents_of_feedAll`). An operator only ever moves from the
one part to the other, and an operand goes to the output at once, so of the operands even the order
is kept (`Yard.operands_of_feedAll`).

Both are shown for one token first. An operator that leaves goes from the top of what is held to the
front of the output, and on the whole of the yard that is `List.perm_middle`.
-/

set_option autoImplicit false

namespace LineCalculator

/-- The item that a token stands for. A parenthesis stands for none, and neither does a token that no
    phrase may hold. -/
def Token.item? : Token → Option Item
  | number ds => some (.number (Decimal.numeralValue ds))
  | name x => some (.var x)
  | op o => some (.op o)
  | _ => none

theorem Token.item?_eq_var_iff {t : Token} {x : Text} : t.item? = some (.var x) ↔ t = .name x := by
  cases t <;> simp [item?]

/-- Whether an item is a number or a variable. -/
def Item.isOperand : Item → Bool
  | op _ => false
  | _ => true

/-- The item that waits: an operator, or the start of a group, which is none. -/
def Held.item? : Held → Option Item
  | group => none
  | op o => some (.op o)

namespace Yard

/-- All items in the yard, those that have left and those that wait. -/
def contents (y : Yard) : List Item := y.output ++ y.held.filterMap Held.item?

/-- The operands that have left, the most recent first. -/
def operands (y : Yard) : List Item := y.output.filter Item.isOperand

/-! ## What leaves -/

theorem Pops.contents_perm {y z : Yard} (h : y.Pops z) : z.contents.Perm y.contents := by
  induction h with
  | refl y => exact .refl _
  | pop _ ih => exact ih.trans List.perm_middle.symm

theorem Pops.operands_eq {y z : Yard} (h : y.Pops z) : z.operands = y.operands := by
  induction h with
  | refl y => rfl
  | pop _ ih => exact ih

theorem contents_of_drain {held : List Held} {out : List Item} {p : Postfix}
    (h : drain held out = .ok p) : p.Perm (contents ⟨held, out⟩) := by
  have hpops := (pops_of_drain h).contents_perm
  rw [contents, List.filterMap_nil, List.append_nil] at hpops
  exact (List.reverse_perm p).symm.trans hpops

theorem operands_of_drain {held : List Held} {out : List Item} {p : Postfix}
    (h : drain held out = .ok p) :
    p.filter Item.isOperand = (out.filter Item.isOperand).reverse := by
  have hpops : p.reverse.filter Item.isOperand = out.filter Item.isOperand :=
    (pops_of_drain h).operands_eq
  rw [← hpops, List.filter_reverse, List.reverse_reverse]

/-! ## One token -/

/-- A token that is taken in adds the item that it stands for. -/
theorem Takes.contents_perm {y z : Yard} {t : Token} (h : y.Takes t z) :
    z.contents.Perm (t.item?.toList ++ y.contents) := by
  cases h with
  | number ds => exact .refl _
  | name x => exact .refl _
  | leftParen => exact .refl _
  | rightParen hpops => exact hpops.contents_perm
  | op o hpops => exact List.perm_middle.trans (hpops.contents_perm.cons (.op o))

/-- An operand that is taken in leaves behind those before it. -/
theorem Takes.operands_eq {y z : Yard} {t : Token} (h : y.Takes t z) :
    z.operands = t.item?.toList.filter Item.isOperand ++ y.operands := by
  cases h with
  | number ds => rfl
  | name x => rfl
  | leftParen => rfl
  | rightParen hpops => exact hpops.operands_eq
  | op o hpops => exact hpops.operands_eq

/-! ## All tokens -/

/-- **Nothing is lost and nothing is added.** -/
theorem contents_of_feedAll {y z : Yard} {ts : List Token} (h : y.feedAll ts = .ok z) :
    z.contents.Perm (ts.filterMap Token.item? ++ y.contents) := by
  induction ts generalizing y with
  | nil =>
    have hz := Except.ok.inj h
    rw [← hz]
    exact .refl _
  | cons t ts ih =>
    obtain ⟨y', hfeed, hrest⟩ := bind_eq_ok_iff.1 h
    have hitems : (t :: ts).filterMap Token.item? =
        t.item?.toList ++ ts.filterMap Token.item? := by
      cases ht : t.item? <;> simp [ht]
    have hstep := (takes_of_feed hfeed).contents_perm.append_left (ts.filterMap Token.item?)
    refine (ih hrest).trans (hstep.trans ?_)
    rw [hitems, ← List.append_assoc]
    exact List.perm_append_comm.append_right y.contents

/-- The operands leave in the order in which they came. -/
theorem operands_of_feedAll {y z : Yard} {ts : List Token} (h : y.feedAll ts = .ok z) :
    z.operands = ((ts.filterMap Token.item?).filter Item.isOperand).reverse ++ y.operands := by
  induction ts generalizing y with
  | nil =>
    have hz := Except.ok.inj h
    rw [← hz]
    rfl
  | cons t ts ih =>
    obtain ⟨y', hfeed, hrest⟩ := bind_eq_ok_iff.1 h
    rw [ih hrest, (takes_of_feed hfeed).operands_eq]
    cases ht : t.item? with
    | none => simp [ht]
    | some i => cases hi : i.isOperand <;> simp [ht, hi]

end Yard

namespace Postfix

/-- **A conversion only rearranges**: it keeps every item, and of the operands also the order. -/
theorem perm_of_ofTokens {ts : List Token} {p : Postfix} (h : ofTokens ts = .ok p) :
    p.Perm (ts.filterMap Token.item?) := by
  obtain ⟨y, hfeed, hdrain⟩ := bind_eq_ok_iff.1 h
  have hitems := (Yard.contents_of_drain hdrain).trans (Yard.contents_of_feedAll hfeed)
  exact hitems.trans (.of_eq (List.append_nil _))

theorem operands_of_ofTokens {ts : List Token} {p : Postfix} (h : ofTokens ts = .ok p) :
    p.filter Item.isOperand = (ts.filterMap Token.item?).filter Item.isOperand := by
  obtain ⟨y, hfeed, hdrain⟩ := bind_eq_ok_iff.1 h
  have hout : y.output.filter Item.isOperand =
      ((ts.filterMap Token.item?).filter Item.isOperand).reverse := by
    rw [← Yard.operands, Yard.operands_of_feedAll hfeed]
    exact List.append_nil _
  rw [Yard.operands_of_drain hdrain, hout, List.reverse_reverse]

end Postfix

end LineCalculator
