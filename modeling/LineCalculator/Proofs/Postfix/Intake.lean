import LineCalculator.Proofs.Postfix.Shunting

/-!
# What the yard takes in

The yard converts phrases (`Postfix.ofTokens_tokens`) and nothing else: if it gets to the end of the
tokens and can be drained, then none of them was foreign and the parentheses match. So the
conversion succeeds **exactly on phrases**, and a postfix sequence that comes from it is the order
of one.

The invariant is a count. The parentheses that are held are the groups that are open (`groups`), and
every token that is taken in moves this count as `Token.Closes` does.

Which operators leave when does not matter to that, nor to anything else that only asks what is in the
yard. `Pops` and `Takes` say what the yard does without it, and invariants are shown on them.
-/

set_option autoImplicit false

namespace LineCalculator

namespace Yard

/-! ## What a yard does -/

/-- Operators on top leave, any number of them. -/
inductive Pops : Yard → Yard → Prop
  | refl (y : Yard) : Pops y y
  | pop {q : Operator} {held : List Held} {out : List Item} {z : Yard} :
    Pops ⟨held, .op q :: out⟩ z → Pops ⟨.op q :: held, out⟩ z

/-- A token is taken in. -/
inductive Takes (y : Yard) : Token → Yard → Prop
  | number (ds : Text) : Takes y (.number ds) (y.emit (.number (Decimal.numeralValue ds)))
  | name (x : Text) : Takes y (.name x) (y.emit (.var x))
  | leftParen : Takes y .leftParen (y.hold .group)
  | rightParen {z : Yard} : Pops y (z.hold .group) → Takes y .rightParen z
  | op (o : Operator) {z : Yard} : Pops y z → Takes y (.op o) (z.hold (.op o))

theorem pops_release (o : Operator) (held : List Held) (out : List Item) :
    Pops ⟨held, out⟩ (release o held out) := by
  induction held generalizing out with
  | nil => exact .refl _
  | cons h held ih =>
    cases h with
    | group => exact .refl _
    | op q =>
      rw [release]
      split
      · exact .pop (ih (.op q :: out))
      · exact .refl _

theorem pops_of_close {held : List Held} {out : List Item} {z : Yard}
    (h : close held out = .ok z) : Pops ⟨held, out⟩ (z.hold .group) := by
  induction held generalizing out with
  | nil => exact absurd h (by simp [close])
  | cons k held ih =>
    cases k with
    | group =>
      have hz := Except.ok.inj h
      rw [← hz]
      exact .refl _
    | op q => exact .pop (ih h)

theorem pops_of_drain {held : List Held} {out : List Item} {p : Postfix}
    (h : drain held out = .ok p) : Pops ⟨held, out⟩ ⟨[], p.reverse⟩ := by
  induction held generalizing out with
  | nil =>
    have hp := Except.ok.inj h
    rw [← hp, List.reverse_reverse]
    exact .refl _
  | cons k held ih =>
    cases k with
    | group => exact absurd h (by simp [drain])
    | op q => exact .pop (ih h)

theorem takes_of_feed {y z : Yard} {t : Token} (h : y.feed t = .ok z) : y.Takes t z := by
  cases t with
  | number ds =>
    have hz := Except.ok.inj h
    rw [← hz]
    exact .number ds
  | name x =>
    have hz := Except.ok.inj h
    rw [← hz]
    exact .name x
  | leftParen =>
    have hz := Except.ok.inj h
    rw [← hz]
    exact .leftParen
  | rightParen => exact .rightParen (pops_of_close h)
  | op o =>
    have hz := Except.ok.inj h
    rw [← hz, pushOperator_eq]
    exact .op o (pops_release o y.held y.output)
  | equals => exact absurd h (by simp [feed])
  | unknown w => exact absurd h (by simp [feed])

/-! ## Open groups -/

/-- How many groups are open. -/
def groups (y : Yard) : Nat := y.held.count .group

theorem Pops.groups_eq {y z : Yard} (h : y.Pops z) : z.groups = y.groups := by
  induction h with
  | refl y => rfl
  | pop _ ih =>
    rw [ih, groups, groups, List.count_cons_of_ne (by simp)]

theorem groups_hold_group (y : Yard) : (y.hold .group).groups = y.groups + 1 := List.count_cons_self

theorem groups_hold_op (y : Yard) (o : Operator) : (y.hold (.op o)).groups = y.groups :=
  List.count_cons_of_ne (by simp)

theorem groups_of_drain {held : List Held} {out : List Item} {p : Postfix}
    (h : drain held out = .ok p) : groups ⟨held, out⟩ = 0 :=
  (pops_of_drain h).groups_eq.symm

/-- What a token does to the open groups is what it asks of the tokens behind it. -/
theorem Takes.closes {y z : Yard} {t : Token} {ts : List Token} (h : y.Takes t z)
    (hts : Token.Closes z.groups ts) :
    t.isForeign = false ∧ Token.Closes y.groups (t :: ts) := by
  cases h with
  | number ds => exact ⟨rfl, (Token.closes_cons_iff (by simp) (by simp)).2 hts⟩
  | name x => exact ⟨rfl, (Token.closes_cons_iff (by simp) (by simp)).2 hts⟩
  | leftParen =>
    rw [groups_hold_group] at hts
    exact ⟨rfl, Token.closes_leftParen_iff.2 hts⟩
  | rightParen hpops =>
    have hgroups := hpops.groups_eq
    rw [groups_hold_group] at hgroups
    exact ⟨rfl, Token.closes_rightParen_iff.2 ⟨z.groups, hgroups.symm, hts⟩⟩
  | op o hpops =>
    rw [groups_hold_op, hpops.groups_eq] at hts
    exact ⟨rfl, (Token.closes_cons_iff (by simp) (by simp)).2 hts⟩

/-! ## All tokens -/

theorem closes_of_feedAll {y z : Yard} {ts : List Token} (h : y.feedAll ts = .ok z)
    (hz : z.groups = 0) : (∀ t ∈ ts, t.isForeign = false) ∧ Token.Closes y.groups ts := by
  induction ts generalizing y with
  | nil =>
    obtain rfl := Except.ok.inj h
    exact ⟨by simp, Token.closes_nil_iff.2 hz⟩
  | cons t ts ih =>
    rw [feedAll_cons] at h
    cases hfeed : y.feed t with
    | error f =>
      rw [hfeed] at h
      exact absurd h (by simp [Except.bind])
    | ok y' =>
      rw [hfeed] at h
      obtain ⟨hforeign, hcloses⟩ := ih h
      obtain ⟨ht, hall⟩ := (takes_of_feed hfeed).closes hcloses
      exact ⟨List.forall_mem_cons.2 ⟨ht, hforeign⟩, hall⟩

end Yard

namespace Postfix

/-- **The yard takes in phrases and nothing else**, and leaves their order. -/
theorem ofTokens_eq_ok_iff {ts : List Token} {p : Postfix} :
    ofTokens ts = .ok p ↔ ∃ q : Phrase, q.tokens = ts ∧ q.order = p := by
  constructor
  · intro h
    have hphrase : ∃ q : Phrase, q.tokens = ts := by
      rw [ofTokens] at h
      cases hfeed : Yard.empty.feedAll ts with
      | error f =>
        rw [hfeed] at h
        exact absurd h (by simp [Except.bind])
      | ok z =>
        rw [hfeed] at h
        exact Phrase.exists_tokens_eq_iff.2 (Yard.closes_of_feedAll hfeed (Yard.groups_of_drain h))
    obtain ⟨q, rfl⟩ := hphrase
    rw [ofTokens_tokens] at h
    exact ⟨q, rfl, Except.ok.inj h⟩
  · rintro ⟨q, rfl, rfl⟩
    exact ofTokens_tokens q

end Postfix

end LineCalculator
