import LineCalculator.Expr

/-!
# Where the mode of powers matters

Only one of the five operators asks for the mode. So an expression without that operator has the
same value in both modes, and also the same error if it has none, because everything that can go
wrong in it goes wrong for another reason. This is said of postfix sequences, which is what a line
is evaluated as, and of expression trees.
-/

set_option autoImplicit false

namespace LineCalculator

variable {env : Environment}

theorem Operator.apply_of_ne_pow {o : Operator} (h : o ≠ .pow) (mode mode' : PowerMode)
    (a b : Int) : o.apply mode a b = o.apply mode' a b := by
  cases o with
  | pow => exact absurd rfl h
  | _ => rfl

/-! ## Postfix sequences -/

theorem Item.step_of_ne_pow {i : Item} (h : i ≠ .op .pow) (mode mode' : PowerMode)
    (stack : List Int) : i.step mode env stack = i.step mode' env stack := by
  cases i with
  | number n => rfl
  | var x => rfl
  | op o =>
    have ho : o ≠ .pow := by
      rintro rfl
      exact h rfl
    match stack with
    | [] => rfl
    | [a] => rfl
    | b :: a :: below =>
      show (Fault.lift (o.apply mode a b)).map _ = (Fault.lift (o.apply mode' a b)).map _
      rw [Operator.apply_of_ne_pow ho mode mode']

namespace Postfix

/-- The sequence holds a power. -/
def HasPower (p : Postfix) : Prop := Item.op .pow ∈ p

theorem run_of_not_hasPower {p : Postfix} (h : ¬ p.HasPower) (mode mode' : PowerMode)
    (stack : List Int) : run mode env stack p = run mode' env stack p := by
  induction p generalizing stack with
  | nil => rfl
  | cons i p ih =>
    have hi : i ≠ .op .pow := fun hi => h (hi ▸ List.mem_cons_self)
    have hp : ¬ HasPower p := fun hp => h (List.mem_cons_of_mem i hp)
    rw [run_cons, run_cons, Item.step_of_ne_pow hi mode mode']
    cases i.step mode' env stack with
    | error e => rfl
    | ok s => exact ih hp s

/-- **Without a power the mode does not matter**, neither to the value nor to the error. -/
theorem evaluate_of_not_hasPower {p : Postfix} (h : ¬ p.HasPower) (mode mode' : PowerMode) :
    p.evaluate mode env = p.evaluate mode' env := by
  rw [evaluate, evaluate, run_of_not_hasPower h mode mode']

end Postfix

/-! ## Expression trees -/

namespace Expr

/-- No operator in the expression is a power. -/
def PowerFree : Expr → Prop
  | number _ | var _ => True
  | binary o l r => o ≠ .pow ∧ l.PowerFree ∧ r.PowerFree

theorem PowerFree.not_hasPower {e : Expr} (h : e.PowerFree) : ¬ e.postorder.HasPower := by
  induction e with
  | number n => simp [postorder, Postfix.HasPower]
  | var x => simp [postorder, Postfix.HasPower]
  | binary o l r ihl ihr =>
    obtain ⟨ho, hl, hr⟩ := h
    intro hmem
    rw [postorder, Postfix.HasPower, List.mem_append, List.mem_append, List.mem_singleton] at hmem
    rcases hmem with (hmem | hmem) | hmem
    · exact ihl hl hmem
    · exact ihr hr hmem
    · exact ho (Item.op.inj hmem).symm

theorem PowerFree.eval_eq {e : Expr} (h : e.PowerFree) (mode mode' : PowerMode) :
    e.eval mode env = e.eval mode' env := by
  rw [← e.evaluate_postorder, ← e.evaluate_postorder,
    Postfix.evaluate_of_not_hasPower h.not_hasPower mode mode']

end Expr

end LineCalculator
