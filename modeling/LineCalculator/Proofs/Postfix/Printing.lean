import LineCalculator.Proofs.Line.Footprint
import LineCalculator.Proofs.Line.Literal
import LineCalculator.Proofs.Token.Separation

/-!
# Reading a printed sequence

Items are printed without a tag and with one space between them, and still the text of a sequence says
what the items are. This file reads it back: cut the text at its spaces, and read each piece as an
integer, a name or the symbol of an operator. No text is two of these, and none of them is empty or
holds a space.

That is not so of every sequence that can be written down: a variable may have any name, and one with
the name `1` prints like a number. What it takes is that the variables are names (`Printable`), and in
a sequence that comes from a text they are, because the scanner makes names of nothing but letters.
-/

set_option autoImplicit false

namespace LineCalculator

/-- The operator that a text is the symbol of. -/
def Operator.read? : Text → Option Operator
  | [c] => ofSymbol? c
  | _ => none

/-- The item that a text without spaces is printed for. -/
def Item.read? (w : Text) : Option Item :=
  match Decimal.readInt? w with
  | some n => some (.number n)
  | none => if w.isName then some (.var w) else (Operator.read? w).map .op

/-- The sequence that a text is printed for. The empty text has no pieces. -/
def Postfix.read? (s : Text) : Option Postfix :=
  if s.isEmpty then some [] else (s.splitOn ' ').mapM Item.read?

/-- The variables of the sequence are names. -/
def Postfix.Printable (p : Postfix) : Prop := ∀ x, .var x ∈ p → x.isName = true

/-! ## One item -/

namespace Item

variable {i : Item}

theorem read?_render (hi : ∀ x, i = .var x → x.isName = true) : read? i.render = some i := by
  cases i with
  | number n =>
    have hread : Decimal.readInt? (Decimal.ofInt n) = some n :=
      Decimal.readInt?_eq_some_iff.2 (Decimal.signedNumeral_ofInt n)
    rw [render, read?, hread]
  | var x =>
    have hx : x.isName = true := hi x rfl
    rw [render, read?, Decimal.readInt?_name hx]
    exact if_pos hx
  | op o => cases o <;> rfl

/-- What is printed for an item is not empty and has no space in it. -/
theorem render_ne_nil_and_not_mem (hi : ∀ x, i = .var x → x.isName = true) :
    i.render ≠ [] ∧ ' ' ∉ i.render := by
  cases i with
  | number n =>
    have hnumeral := Decimal.signedNumeral_ofInt n
    exact ⟨hnumeral.ne_nil, hnumeral.not_mem rfl rfl⟩
  | var x =>
    have hword := Text.isWord_of_isName (hi x rfl)
    exact ⟨hword.1, hword.not_mem_of_isBlank rfl⟩
  | op o => cases o <;> decide

end Item

/-! ## A sequence -/

namespace Postfix

variable {p q : Postfix}

theorem Printable.of_mem (hp : p.Printable) {i : Item} (hi : i ∈ p) :
    ∀ x, i = .var x → x.isName = true := by
  intro x hx
  exact hp x (hx ▸ hi)

theorem mapM_read?_render (hp : p.Printable) : (p.map Item.render).mapM Item.read? = some p := by
  induction p with
  | nil => rfl
  | cons i p ih =>
    have hp' : Printable p := fun x hx => hp x (List.mem_cons_of_mem i hx)
    rw [List.map_cons, List.mapM_cons, Item.read?_render (hp.of_mem List.mem_cons_self), ih hp']
    rfl

theorem splitOn_render (hp : p.Printable) (hne : p ≠ []) :
    p.render.splitOn ' ' = p.map Item.render := by
  rw [render]
  refine List.splitOn_intercalate ' ' ?_ (by simpa using hne)
  intro w hw
  obtain ⟨i, hi, hiw⟩ := List.mem_map.1 hw
  rw [← hiw]
  exact (Item.render_ne_nil_and_not_mem (hp.of_mem hi)).2

/-- Only the empty sequence is printed as the empty text. -/
theorem render_eq_nil_iff (hp : p.Printable) : p.render = [] ↔ p = [] := by
  constructor
  · intro h
    by_contra hne
    -- The empty text would be one empty piece, and no item is printed as that.
    have hsplit := splitOn_render hp hne
    rw [h] at hsplit
    have hmem : [] ∈ p.map Item.render := by
      rw [← hsplit]
      exact List.mem_singleton_self []
    obtain ⟨i, hi, hempty⟩ := List.mem_map.1 hmem
    exact (Item.render_ne_nil_and_not_mem (hp.of_mem hi)).1 hempty
  · intro h
    rw [h]
    rfl

/-- **A printed sequence reads back.** -/
theorem read?_render (hp : p.Printable) : read? p.render = some p := by
  rw [read?]
  by_cases hnil : p = []
  · rw [hnil]
    rfl
  · have hne : p.render ≠ [] := fun h => hnil ((render_eq_nil_iff hp).1 h)
    rw [if_neg (by simpa using hne), splitOn_render hp hnil, mapM_read?_render hp]

/-- The variables of a sequence that comes from a text are names of the text. -/
theorem printable_of_ofText {s : Text} (h : ofText s = .ok p) : p.Printable := by
  intro x hx
  exact Token.isName_of_mem_scan (Token.mem_names_iff.1 ((var_mem_iff h).1 hx))

/-- **The text of a sequence that comes from a text is unambiguous**: cut at its spaces and read piece
    by piece it gives the items back, so two texts whose sequences are printed alike have the same
    sequence, and the same value or error in every environment and mode. -/
theorem read?_render_ofText :
    (∀ s p, ofText s = .ok p → read? p.render = some p) ∧
    ∀ s t p q, ofText s = .ok p → ofText t = .ok q → p.render = q.render →
      p = q ∧ ∀ mode env, evaluateExpression mode env s = evaluateExpression mode env t := by
  have hread : ∀ s p, ofText s = .ok p → read? p.render = some p :=
    fun s p hp => read?_render (printable_of_ofText hp)
  refine ⟨hread, ?_⟩
  intro s t p q hp hq hrender
  have hpq : p = q := by
    have hsome : some p = some q := by
      rw [← hread s p hp, hrender, hread t q hq]
    exact Option.some.inj hsome
  refine ⟨hpq, ?_⟩
  intro mode env
  rw [evaluateExpression, evaluateExpression, hp, hq, hpq]

/-- Leading zeros and parentheses do not show in what is printed. -/
theorem read?_render_ofText_zeros_and_parens :
    read? "12 x +".toList = some [.number 12, .var ['x'], .op .add] ∧
      ∀ mode env, evaluateExpression mode env "0012+x".toList =
        evaluateExpression mode env "(12)+x".toList := by
  have hzeros : ofText "0012+x".toList = .ok [.number 12, .var ['x'], .op .add] := rfl
  have hparens : ofText "(12)+x".toList = .ok [.number 12, .var ['x'], .op .add] := rfl
  exact ⟨read?_render_ofText.1 _ _ hzeros,
    (read?_render_ofText.2 _ _ _ _ hzeros hparens rfl).2⟩

end Postfix

end LineCalculator
