import LineCalculator.Proofs.Outcome.Success
import LineCalculator.Proofs.Power.Faults

/-!
# Reading a postfix sequence back

A postorder can be read in one way only, and a sequence that is no postorder goes wrong at one place
only. Both facts are about the items and not about their values, so they are shown on a stack of
**trees**: `grow?` is the run of the evaluator with an expression built where the evaluator would
compute. What it leaves are the trees that the sequence lists one after another (`ofTrees`), and it
stops at the first operator that finds fewer than two of them.

The last section puts the values back. Its clauses cover every sequence: one tree, no tree,
several trees, or trees followed by a starved operator. In each of them the evaluator fails with the
error of the first tree that has no value, and only otherwise with the error of the arrangement.
-/

set_option autoImplicit false

namespace LineCalculator

namespace Postfix

/-- The postorders of several expressions in a row. -/
def ofTrees (es : List Expr) : Postfix := es.flatMap Expr.postorder

/-- How many values a sequence leaves on top of those before it, if every operator finds two. -/
def surplus : Postfix → Int
  | [] => 0
  | .op _ :: p => surplus p - 1
  | _ :: p => surplus p + 1

/-- Behind `q` stands the first operator of `p` that fewer than two outstanding values precede, and
    that operator is `o`. -/
structure StarvedAt (p q : Postfix) (o : Operator) : Prop where
  split : ∃ rest, p = q ++ .op o :: rest
  short : q.surplus < 2
  fed : ∀ (q' : Postfix) o' rest, q = q' ++ .op o' :: rest → 2 ≤ q'.surplus

@[simp] theorem ofTrees_nil : ofTrees [] = [] := rfl

@[simp] theorem ofTrees_cons (e : Expr) (es : List Expr) :
    ofTrees (e :: es) = e.postorder ++ ofTrees es := rfl

theorem ofTrees_append (es es' : List Expr) : ofTrees (es ++ es') = ofTrees es ++ ofTrees es' :=
  List.flatMap_append

theorem ofTrees_singleton (e : Expr) : ofTrees [e] = e.postorder := by simp

end Postfix

/-! ## Growing trees -/

/-- The step of the evaluator, on trees. -/
def Item.graft? (stack : List Expr) : Item → Option (List Expr)
  | number n => some (.number n :: stack)
  | var x => some (.var x :: stack)
  | op o =>
    match stack with
    | r :: l :: below => some (.binary o l r :: below)
    | _ => none

/-- An operator needs two trees and joins them. -/
theorem Item.exists_of_graft?_op {stack s : List Expr} {o : Operator}
    (h : (op o).graft? stack = some s) :
    ∃ r l below, stack = r :: l :: below ∧ s = .binary o l r :: below := by
  rcases stack with _ | ⟨r, _ | ⟨l, below⟩⟩
  · exact absurd h (by simp [graft?])
  · exact absurd h (by simp [graft?])
  · exact ⟨r, l, below, rfl, (Option.some.inj h).symm⟩

namespace Postfix

/-- The run of the evaluator, on trees. -/
def grow? (stack : List Expr) (p : Postfix) : Option (List Expr) := p.foldlM Item.graft? stack

@[simp] theorem grow?_nil (stack : List Expr) : grow? stack [] = some stack := rfl

@[simp] theorem grow?_cons (stack : List Expr) (i : Item) (p : Postfix) :
    grow? stack (i :: p) = (i.graft? stack).bind fun s => grow? s p := rfl

theorem grow?_append (stack : List Expr) (p q : Postfix) :
    grow? stack (p ++ q) = (grow? stack p).bind fun s => grow? s q := by
  induction p generalizing stack with
  | nil => rfl
  | cons i p ih =>
    rw [List.cons_append, grow?_cons, grow?_cons]
    cases i.graft? stack with
    | none => rfl
    | some s => exact ih s

theorem grow?_postorder (e : Expr) (stack : List Expr) :
    grow? stack e.postorder = some (e :: stack) := by
  induction e generalizing stack with
  | number n => rfl
  | var x => rfl
  | binary o l r ihl ihr =>
    rw [Expr.postorder, grow?_append, grow?_append, ihl]
    show ((grow? (l :: stack) r.postorder).bind _) = _
    rw [ihr]
    rfl

theorem grow?_ofTrees (es stack : List Expr) :
    grow? stack (ofTrees es) = some (es.reverse ++ stack) := by
  induction es generalizing stack with
  | nil => rfl
  | cons e es ih =>
    rw [ofTrees_cons, grow?_append, grow?_postorder]
    show grow? (e :: stack) (ofTrees es) = _
    rw [ih, List.reverse_cons, List.append_assoc, List.singleton_append]

/-- Trees in a row can be told apart, so a postorder belongs to one tree only. -/
theorem ofTrees_injective {es es' : List Expr} (h : ofTrees es = ofTrees es') : es = es' := by
  have hg : some (es.reverse ++ []) = some (es'.reverse ++ []) := by
    rw [← grow?_ofTrees, h, grow?_ofTrees]
  have hr : es.reverse = es'.reverse := by simpa using hg
  exact List.reverse_inj.1 hr

theorem postorder_injective {e e' : Expr} (h : e.postorder = e'.postorder) : e = e' := by
  have hl : [e] = [e'] := ofTrees_injective (by rw [ofTrees_singleton, ofTrees_singleton, h])
  exact (List.cons.inj hl).1

/-! ## What a sequence lists -/

/-- One item on: the trees listed so far, followed by the item, are the trees after it. -/
theorem ofTrees_of_graft? {stack s : List Expr} {i : Item} (h : i.graft? stack = some s) :
    ofTrees stack.reverse ++ [i] = ofTrees s.reverse := by
  cases i with
  | number n =>
    obtain rfl := Option.some.inj h
    simp [ofTrees_append, Expr.postorder]
  | var x =>
    obtain rfl := Option.some.inj h
    simp [ofTrees_append, Expr.postorder]
  | op o =>
    obtain ⟨r, l, below, rfl, rfl⟩ := Item.exists_of_graft?_op h
    simp [ofTrees_append, Expr.postorder]

theorem ofTrees_of_grow? {stack s : List Expr} {p : Postfix} (h : grow? stack p = some s) :
    ofTrees stack.reverse ++ p = ofTrees s.reverse := by
  induction p generalizing stack with
  | nil =>
    obtain rfl := Option.some.inj h
    exact List.append_nil _
  | cons i p ih =>
    obtain ⟨t, ht, hs⟩ := Option.bind_eq_some_iff.1 h
    rw [← ih hs, ← ofTrees_of_graft? ht, List.append_assoc, List.singleton_append]

/-- Where growing stops: at an operator that finds fewer than two trees. -/
theorem exists_of_grow?_eq_none {stack : List Expr} {p : Postfix} (h : grow? stack p = none) :
    ∃ q t o rest, p = q ++ .op o :: rest ∧ grow? stack q = some t ∧ t.length < 2 := by
  induction p generalizing stack with
  | nil => exact absurd h (by simp)
  | cons i p ih =>
    cases hi : i.graft? stack with
    | some s =>
      have hp : grow? s p = none := by simpa [hi] using h
      obtain ⟨q, t, o, rest, rfl, hq, ht⟩ := ih hp
      refine ⟨i :: q, t, o, rest, rfl, ?_, ht⟩
      rw [grow?_cons, hi]
      exact hq
    | none =>
      -- Operands always find a place, so the item is an operator.
      cases i with
      | number n => exact absurd hi (by simp [Item.graft?])
      | var x => exact absurd hi (by simp [Item.graft?])
      | op o =>
        refine ⟨[], stack, o, p, rfl, rfl, ?_⟩
        rcases stack with _ | ⟨r, _ | ⟨l, below⟩⟩
        · decide
        · simp
        · exact absurd hi (by simp [Item.graft?])

/-- Every sequence lists trees, or lists fewer than two of them before an operator. -/
theorem exists_reading (p : Postfix) :
    (∃ es, p = ofTrees es) ∨ ∃ es o rest, es.length < 2 ∧ p = ofTrees es ++ .op o :: rest := by
  cases h : grow? [] p with
  | some s => exact Or.inl ⟨s.reverse, ofTrees_of_grow? h⟩
  | none =>
    obtain ⟨q, t, o, rest, rfl, hq, ht⟩ := exists_of_grow?_eq_none h
    refine Or.inr ⟨t.reverse, o, rest, by simpa using ht, ?_⟩
    rw [← ofTrees_of_grow? hq]
    rfl

/-! ## Outstanding values -/

theorem surplus_append (p q : Postfix) : surplus (p ++ q) = surplus p + surplus q := by
  induction p with
  | nil => simp [surplus]
  | cons i p ih => cases i <;> simp only [List.cons_append, surplus, ih] <;> omega

/-- As many values are outstanding as trees have been grown. -/
theorem length_of_grow? {stack s : List Expr} {p : Postfix} (h : grow? stack p = some s) :
    (s.length : Int) = stack.length + p.surplus := by
  induction p generalizing stack with
  | nil =>
    obtain rfl := Option.some.inj h
    simp [surplus]
  | cons i p ih =>
    obtain ⟨t, ht, hs⟩ := Option.bind_eq_some_iff.1 h
    rw [ih hs]
    cases i with
    | number n =>
      obtain rfl := Option.some.inj ht
      simp only [surplus, List.length_cons]
      omega
    | var x =>
      obtain rfl := Option.some.inj ht
      simp only [surplus, List.length_cons]
      omega
    | op o =>
      obtain ⟨r, l, below, rfl, rfl⟩ := Item.exists_of_graft?_op ht
      simp only [surplus, List.length_cons]
      omega

theorem surplus_ofTrees (es : List Expr) : (ofTrees es).surplus = es.length := by
  have h := length_of_grow? (grow?_ofTrees es [])
  simp only [List.append_nil, List.length_reverse, List.length_nil] at h
  omega

theorem surplus_postorder (e : Expr) : e.postorder.surplus = 1 := by
  rw [← ofTrees_singleton, surplus_ofTrees]
  rfl

/-- Inside a row of trees every operator has its operands. -/
theorem two_le_surplus_of_ofTrees {es : List Expr} {q rest : Postfix} {o : Operator}
    (h : ofTrees es = q ++ .op o :: rest) : 2 ≤ q.surplus := by
  have hg : grow? [] (q ++ .op o :: rest) = some (es.reverse ++ []) := by
    rw [← h, grow?_ofTrees]
  rw [grow?_append] at hg
  obtain ⟨t, ht, hrest⟩ := Option.bind_eq_some_iff.1 hg
  obtain ⟨s, hs, -⟩ := Option.bind_eq_some_iff.1 hrest
  have hlen := length_of_grow? ht
  obtain ⟨r, l, below, rfl, -⟩ := Item.exists_of_graft?_op hs
  simp only [List.length_cons, List.length_nil] at hlen
  omega

/-- What stands before a starved operator is one tree or none. -/
theorem starvedAt_iff {p q : Postfix} {o : Operator} :
    p.StarvedAt q o ↔
      ∃ es rest, q = ofTrees es ∧ es.length < 2 ∧ p = ofTrees es ++ .op o :: rest := by
  constructor
  · intro h
    obtain ⟨rest, hp⟩ := h.split
    rcases exists_reading q with ⟨es, rfl⟩ | ⟨es, o', r', hes, rfl⟩
    · have := h.short
      rw [surplus_ofTrees] at this
      exact ⟨es, rest, rfl, by omega, hp⟩
    · have := h.fed (ofTrees es) o' r' rfl
      rw [surplus_ofTrees] at this
      omega
  · rintro ⟨es, rest, rfl, hes, rfl⟩
    refine ⟨⟨rest, rfl⟩, ?_, fun q' o' r' hq => two_le_surplus_of_ofTrees hq⟩
    rw [surplus_ofTrees]
    omega

end Postfix

/-! ## Values of trees -/

/-- Whether a fault lies in the arrangement of the items and not in their values. -/
def Fault.isStructural : Fault → Bool
  | empty | missingOperand _ | leftoverOperands _ => true
  | _ => false

/-- Arithmetic never finds fault with the arrangement. -/
theorem Fault.Arithmetic.isStructural {mode : PowerMode} {f : Fault} (h : f.Arithmetic mode) :
    f.isStructural = false := by
  cases h <;> rfl

namespace Expr

variable {mode : PowerMode} {env : Environment}

/-- An expression fails for want of a variable, or because of the arithmetic. -/
theorem arithmetic_of_eval {e : Expr} {f : Fault}
    (h : e.eval mode env = .error (.invalidExpression f)) : f.Arithmetic mode := by
  induction e with
  | number n => exact absurd h (by simp [eval])
  | var x => exact absurd (Environment.lookup_eq_error_iff.1 h).2 (by simp)
  | binary o l r ihl ihr =>
    rw [eval] at h
    rcases bind_eq_error_iff.1 h with hl | ⟨a, -, h⟩
    · exact ihl hl
    · rcases bind_eq_error_iff.1 h with hr | ⟨b, -, h⟩
      · exact ihr hr
      · obtain ⟨f', ho, hf⟩ := Fault.lift_eq_error_iff.1 h
        rw [← LineError.invalidExpression.inj hf]
        exact Operator.arithmetic_of_apply ((o.apply_eq_meaning mode a b).trans ho)

/-- The expression has a value in the environment. -/
def HasValue (mode : PowerMode) (env : Environment) (e : Expr) : Prop :=
  ∃ v, e.eval mode env = .ok v

end Expr

namespace Postfix

variable (mode : PowerMode) (env : Environment)

/-- Running a row of trees pushes their values, or fails with the error of one that has none. -/
theorem run_ofTrees (es : List Expr) :
    (∃ vs : List Int, vs.length = es.length ∧ (∀ e ∈ es, e.HasValue mode env) ∧
      ∀ stack, run mode env stack (ofTrees es) = .ok (vs ++ stack)) ∨
    ∃ e ∈ es, ∃ x, e.eval mode env = .error x ∧
      ∀ stack, run mode env stack (ofTrees es) = .error x := by
  induction es with
  | nil => exact Or.inl ⟨[], rfl, by simp, fun _ => rfl⟩
  | cons e es ih =>
    have hcons : ∀ stack, run mode env stack (ofTrees (e :: es)) =
        ((e.eval mode env).map (· :: stack)).bind fun s => run mode env s (ofTrees es) := by
      intro stack
      rw [ofTrees_cons, run_append, Expr.run_postorder]
    cases he : e.eval mode env with
    | error x =>
      refine Or.inr ⟨e, List.mem_cons_self, x, he, fun stack => ?_⟩
      rw [hcons, he]
      rfl
    | ok v =>
      rcases ih with ⟨vs, hlen, hvals, hrun⟩ | ⟨e', he', x, hx, hrun⟩
      · refine Or.inl ⟨vs ++ [v], by simp [hlen], ?_, fun stack => ?_⟩
        · rw [List.forall_mem_cons]
          exact ⟨⟨v, he⟩, hvals⟩
        · rw [hcons, he, List.append_assoc]
          exact hrun (v :: stack)
      · refine Or.inr ⟨e', List.mem_cons_of_mem e he', x, hx, fun stack => ?_⟩
        rw [hcons, he]
        exact hrun (v :: stack)

/-! ## The flaw of a sequence

A sequence that is no postorder has one flaw, and the trees listed before it are all that the
evaluator computes until it gets there. -/

/-- What is wrong with the arrangement of a sequence, behind the trees that come before it. -/
inductive Flaw : Postfix → List Expr → Fault → Prop
  | empty : Flaw [] [] .empty
  | missingOperand {p : Postfix} {es : List Expr} {o : Operator} :
    p.StarvedAt (ofTrees es) o → Flaw p es (.missingOperand o)
  | leftoverOperands {es : List Expr} :
    2 ≤ es.length → Flaw (ofTrees es) es (.leftoverOperands es.length)

theorem exists_flaw {p : Postfix} (h : ¬ ∃ e : Expr, p = e.postorder) : ∃ es f, p.Flaw es f := by
  rcases exists_reading p with ⟨es, rfl⟩ | ⟨es, o, rest, hes, rfl⟩
  · match es with
    | [] => exact ⟨[], .empty, .empty⟩
    | [e] => exact absurd ⟨e, ofTrees_singleton e⟩ h
    | e :: e' :: es => exact ⟨_, _, .leftoverOperands (by simp)⟩
  · exact ⟨es, .missingOperand o, .missingOperand (starvedAt_iff.2 ⟨es, rest, rfl, hes, rfl⟩)⟩

/-- The flaw shows if all trees before it have values, and else the error of one of these trees. -/
theorem Flaw.evaluate {p : Postfix} {es : List Expr} {f : Fault} (h : p.Flaw es f) :
    (∀ e ∈ es, e.HasValue mode env) ∧ p.evaluate mode env = .error (.invalidExpression f) ∨
      ∃ e ∈ es, ∃ x, e.eval mode env = .error x ∧ p.evaluate mode env = .error x := by
  -- `p` begins with the trees, so an error among them is the error of `p`.
  have herror : ∀ (rest : Postfix) {x : LineError},
      (∀ stack, run mode env stack (ofTrees es) = .error x) →
        (ofTrees es ++ rest).evaluate mode env = .error x := by
    intro rest x hx
    rw [Postfix.evaluate, run_append, hx]
    rfl
  rcases run_ofTrees mode env es with
    ⟨vs, hlen, hvals, hrun⟩ | ⟨e, he, x, hx, hrun⟩
  · refine Or.inl ⟨hvals, ?_⟩
    cases h with
    | empty => rfl
    | missingOperand hs =>
      obtain ⟨es', rest, heq, hes, rfl⟩ := starvedAt_iff.1 hs
      obtain rfl := ofTrees_injective heq
      rw [Postfix.evaluate, run_append, hrun]
      rcases vs with _ | ⟨a, _ | ⟨b, vs⟩⟩
      · rfl
      · rfl
      · exact absurd (hlen ▸ hes) (by simp)
    | leftoverOperands hes =>
      rw [Postfix.evaluate, hrun, List.append_nil, ← hlen]
      rcases vs with _ | ⟨a, _ | ⟨b, vs⟩⟩
      · exact absurd (hlen ▸ hes) (by simp)
      · exact absurd (hlen ▸ hes) (by simp)
      · rfl
  · refine Or.inr ⟨e, he, x, hx, ?_⟩
    cases h with
    | empty => exact absurd he (by simp)
    | missingOperand hs =>
      obtain ⟨es', rest, heq, -, rfl⟩ := starvedAt_iff.1 hs
      obtain rfl := ofTrees_injective heq
      exact herror _ hrun
    | leftoverOperands _ =>
      have := herror [] hrun
      rwa [List.append_nil] at this

variable {mode env}

/-- An error of the arrangement is the flaw of the sequence, behind trees that have values. -/
theorem evaluate_eq_flaw_iff {p : Postfix} {f : Fault} (hf : f.isStructural = true) :
    p.evaluate mode env = .error (.invalidExpression f) ↔
      ∃ es, p.Flaw es f ∧ ∀ e ∈ es, e.HasValue mode env := by
  constructor
  · intro h
    by_cases hp : ∃ e : Expr, p = e.postorder
    · obtain ⟨e, rfl⟩ := hp
      rw [Expr.evaluate_postorder] at h
      exact absurd (Expr.arithmetic_of_eval h).isStructural (by simp [hf])
    · obtain ⟨es, f', hflaw⟩ := exists_flaw hp
      rcases hflaw.evaluate mode env with ⟨hvals, he⟩ | ⟨e, _, x, hx, he⟩
      · obtain rfl : f' = f := by simpa [he] using h
        exact ⟨es, hflaw, hvals⟩
      · obtain rfl : x = .invalidExpression f := by simpa [he] using h
        exact absurd (Expr.arithmetic_of_eval hx).isStructural (by simp [hf])
  · rintro ⟨es, hflaw, hvals⟩
    rcases hflaw.evaluate mode env with ⟨_, he⟩ | ⟨e, hmem, x, hx, _⟩
    · exact he
    · obtain ⟨v, hv⟩ := hvals e hmem
      exact absurd (hv.symm.trans hx) (by simp)

/-- A sequence that is no postorder has no value. -/
theorem exists_error_of_not_postorder (mode : PowerMode) (env : Environment) {p : Postfix}
    (h : ¬ ∃ e : Expr, p = e.postorder) : ∃ x, p.evaluate mode env = .error x := by
  obtain ⟨es, f, hflaw⟩ := exists_flaw h
  rcases hflaw.evaluate mode env with ⟨_, he⟩ | ⟨_, _, x, _, he⟩
  · exact ⟨_, he⟩
  · exact ⟨x, he⟩

/-- A value is the value of the one tree that the sequence is the postorder of. -/
theorem evaluate_eq_ok_iff {p : Postfix} {v : Int} :
    p.evaluate mode env = .ok v ↔ ∃ e : Expr, p = e.postorder ∧ e.eval mode env = .ok v := by
  constructor
  · intro h
    by_cases hp : ∃ e : Expr, p = e.postorder
    · obtain ⟨e, rfl⟩ := hp
      exact ⟨e, rfl, by rwa [Expr.evaluate_postorder] at h⟩
    · obtain ⟨x, hx⟩ := exists_error_of_not_postorder mode env hp
      exact absurd (hx.symm.trans h) (by simp)
  · rintro ⟨e, rfl, he⟩
    rwa [Expr.evaluate_postorder]

/-- **Evaluation decides the postorders of trees.** A sequence has a value exactly if it is the
    postorder of a tree, of one only, and the tree has that value; the error of a tree is the error
    of its postorder. Every other sequence is empty, or has a first operator that fewer than two
    outstanding values precede, or lists several trees, and it fails in every environment and mode;
    the error says which of the three it is, unless a tree before that place has no value. -/
theorem evaluate_iff_reading (mode : PowerMode) (env : Environment) (p : Postfix) :
    (∀ v, p.evaluate mode env = .ok v ↔
      ∃ e : Expr, (∀ e', p = e'.postorder ↔ e' = e) ∧ e.eval mode env = .ok v) ∧
    (∀ (e : Expr) x, p = e.postorder → e.eval mode env = .error x →
      p.evaluate mode env = .error x) ∧
    ((¬ ∃ e : Expr, p = e.postorder) →
      (∃ x, p.evaluate mode env = .error x) ∧
        (p = [] ∨ (∃ es o, p.StarvedAt (ofTrees es) o) ∨
          ∃ es, 2 ≤ es.length ∧ p = ofTrees es)) ∧
    (p.evaluate mode env = .error (.invalidExpression .empty) ↔ p = []) ∧
    (∀ o, p.evaluate mode env = .error (.invalidExpression (.missingOperand o)) ↔
      ∃ es, p.StarvedAt (ofTrees es) o ∧ ∀ e ∈ es, e.HasValue mode env) ∧
    (∀ k, p.evaluate mode env = .error (.invalidExpression (.leftoverOperands k)) ↔
      2 ≤ k ∧ ∃ es, es.length = k ∧ p = ofTrees es ∧ ∀ e ∈ es, e.HasValue mode env) := by
  refine ⟨fun v => ?_, fun e x hp hx => ?_,
    fun hp => ⟨exists_error_of_not_postorder mode env hp, ?_⟩, ?_, fun o => ?_, fun k => ?_⟩
  · rw [evaluate_eq_ok_iff]
    constructor
    · rintro ⟨e, rfl, he⟩
      exact ⟨e, fun e' => ⟨fun h => (postorder_injective h).symm, fun h => h ▸ rfl⟩, he⟩
    · rintro ⟨e, hp, he⟩
      exact ⟨e, (hp e).2 rfl, he⟩
  · rw [hp, Expr.evaluate_postorder, hx]
  · obtain ⟨es, f, hflaw⟩ := exists_flaw hp
    cases hflaw with
    | empty => exact Or.inl rfl
    | missingOperand hs => exact Or.inr (Or.inl ⟨es, _, hs⟩)
    | leftoverOperands hes => exact Or.inr (Or.inr ⟨es, hes, rfl⟩)
  · rw [evaluate_eq_flaw_iff rfl]
    constructor
    · rintro ⟨es, hflaw, _⟩
      cases hflaw
      rfl
    · rintro rfl
      exact ⟨[], .empty, by simp⟩
  · rw [evaluate_eq_flaw_iff rfl]
    constructor
    · rintro ⟨es, hflaw, hvals⟩
      cases hflaw with
      | missingOperand hs => exact ⟨es, hs, hvals⟩
    · rintro ⟨es, hs, hvals⟩
      exact ⟨es, .missingOperand hs, hvals⟩
  · rw [evaluate_eq_flaw_iff rfl]
    constructor
    · rintro ⟨es, hflaw, hvals⟩
      cases hflaw with
      | leftoverOperands hes => exact ⟨hes, es, rfl, rfl, hvals⟩
    · rintro ⟨hk, es, rfl, rfl, hvals⟩
      exact ⟨es, .leftoverOperands hk, hvals⟩

end Postfix

end LineCalculator
