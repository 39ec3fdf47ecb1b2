import LineCalculator.Proofs.Postfix.Refusal
import Mathlib.Data.List.Chain
import Mathlib.Data.List.Sort

/-!
# What waits in the yard

An operator is held only above one that binds less tightly, or above the start of a group, which
shields what is below it (`Yard.Rising`), and whatever is piled up like that is held behind some
tokens (`Yard.exists_feedAll_iff_isChain`). There are three precedences, so of operators next to each
other at most three wait.

An operator that is taken in first sends away what binds at least as tightly, and so comes to stand on
something that does not make way for it. This is the step of the invariant, and it is seen best when
the operator is taken in by one rule without cases (`Yard.displace`). Everything else that happens to
what is held puts the start of a group on top, or takes from the top.

A state of a conversion is the yard behind some tokens, or one on the way from it to the next token or
to the end, when some operators on top have left (`Yard.Pops`). What is shown of states is shown of
both.
-/

set_option autoImplicit false

namespace LineCalculator

namespace Operator

theorem precedence_mem (o : Operator) : o.precedence ∈ [2, 10, 11] := by
  cases o <;> decide

/-- There are three precedences, so a fourth operator does not bind tighter than three that rise. -/
theorem length_le_three {os : List Operator} (h : (os.map precedence).SortedLT) :
    os.length ≤ 3 := by
  have hsubset : os.map precedence ⊆ [2, 10, 11] := by
    intro k hk
    obtain ⟨o, -, rfl⟩ := List.mem_map.1 hk
    exact o.precedence_mem
  have hlength := (List.subperm_of_subset h.nodup hsubset).length_le
  rwa [List.length_map] at hlength

end Operator

namespace Token

/-- Of the tokens of a phrase those that are no parentheses stand for items, and only those. -/
theorem map_some_filterMap_item? {ts : List Token} (hts : ∀ t ∈ ts, t.isForeign = false) :
    (ts.filterMap item?).map some =
      (ts.filter fun t => t != .leftParen && t != .rightParen).map item? := by
  induction ts with
  | nil => rfl
  | cons t ts ih =>
    obtain ⟨ht, hrest⟩ := List.forall_mem_cons.1 hts
    cases t with
    | equals => exact absurd ht (by decide)
    | unknown w => exact absurd ht (by simp [isForeign])
    | leftParen | rightParen => exact ih hrest
    | op o => exact congrArg (some (.op o) :: ·) (ih hrest)
    | name x => exact congrArg (some (.var x) :: ·) (ih hrest)
    | number ds => exact congrArg (some (.number (Decimal.numeralValue ds)) :: ·) (ih hrest)

end Token

namespace Held

/-- Whether it makes way for the operator: it is one that binds at least as tightly. -/
def yieldsTo (o : Operator) : Held → Bool
  | group => false
  | op q => o.precedence ≤ q.precedence

/-- The first may stand on the second. -/
def StandsOn : Held → Held → Prop
  | group, _ => True
  | op o, below => below.yieldsTo o = false

theorem standsOn_op_op_iff {o q : Operator} :
    StandsOn (.op o) (.op q) ↔ q.precedence < o.precedence :=
  decide_eq_false_iff_not.trans Nat.not_le

end Held

namespace Yard

/-! ## One rule for operators -/

/-- Take in an operator by one rule: what makes way for it leaves from the top, then it is held. -/
def displace (y : Yard) (o : Operator) : Yard where
  held := .op o :: y.held.dropWhile (Held.yieldsTo o)
  output := ((y.held.takeWhile (Held.yieldsTo o)).filterMap Held.item?).reverse ++ y.output

theorem displace_mk (held : List Held) (out : List Item) (o : Operator) :
    displace ⟨held, out⟩ o = ⟨.op o :: held.dropWhile (Held.yieldsTo o),
      ((held.takeWhile (Held.yieldsTo o)).filterMap Held.item?).reverse ++ out⟩ := rfl

theorem hold_release (o : Operator) (held : List Held) (out : List Item) :
    (release o held out).hold (.op o) = displace ⟨held, out⟩ o := by
  induction held generalizing out with
  | nil => rfl
  | cons k held ih =>
    cases k with
    | group => rfl
    | op q =>
      rw [release]
      by_cases h : o.precedence ≤ q.precedence
      · have hyields : Held.yieldsTo o (.op q) = true := decide_eq_true h
        have hitem : Held.item? (.op q) = some (.op q) := rfl
        rw [if_pos h, ih, displace_mk, displace_mk, List.dropWhile_cons_of_pos hyields,
          List.takeWhile_cons_of_pos hyields, List.filterMap_cons_some hitem, List.reverse_cons,
          List.append_assoc, List.singleton_append]
      · have hstays : ¬ Held.yieldsTo o (.op q) = true := by simpa [Held.yieldsTo] using h
        rw [if_neg h, displace_mk, List.dropWhile_cons_of_neg hstays,
          List.takeWhile_cons_of_neg hstays]
        rfl

theorem pushOperator_eq_displace (y : Yard) (o : Operator) : y.pushOperator o = y.displace o := by
  rw [pushOperator_eq]
  exact hold_release o y.held y.output

/-- On something that does not make way, an operator is held and nothing leaves. -/
theorem displace_eq_hold {y : Yard} {o : Operator}
    (h : ∀ k ∈ y.held.head?, Held.yieldsTo o k = false) : y.displace o = y.hold (.op o) := by
  obtain ⟨held, out⟩ := y
  cases held with
  | nil => rfl
  | cons k held =>
    have hstays : ¬ Held.yieldsTo o k = true := by simpa using h k rfl
    rw [displace_mk, List.dropWhile_cons_of_neg hstays, List.takeWhile_cons_of_neg hstays]
    rfl

/-! ## The order of what waits -/

/-- Everything held stands on what it may stand on. -/
def Rising (y : Yard) : Prop := y.held.IsChain Held.StandsOn

theorem rising_empty : empty.Rising := List.IsChain.nil

theorem Pops.rising {y z : Yard} (h : y.Pops z) (hy : y.Rising) : z.Rising := by
  induction h with
  | refl y => exact hy
  | pop _ ih => exact ih (List.IsChain.tail hy)

theorem Rising.displace {y : Yard} (hy : y.Rising) (o : Operator) : (y.displace o).Rising := by
  refine List.IsChain.cons (hy.suffix (List.dropWhile_suffix _)) ?_
  intro k hk
  -- Under the operator comes the first thing that did not make way for it.
  have hhead := List.head?_dropWhile_not (Held.yieldsTo o) y.held
  rw [Option.mem_def.1 hk] at hhead
  exact hhead

theorem Rising.feed {y z : Yard} {t : Token} (hy : y.Rising) (h : y.feed t = .ok z) :
    z.Rising := by
  cases t with
  | number ds | name x =>
    have hz := Except.ok.inj h
    rw [← hz]
    exact hy
  | leftParen =>
    have hz := Except.ok.inj h
    rw [← hz]
    exact List.IsChain.cons hy fun _ _ => trivial
  | rightParen =>
    -- The start of the group is on top when all operators of the group have left, and goes last.
    exact List.IsChain.tail ((pops_of_close h).rising hy)
  | op o =>
    have hz := Except.ok.inj h
    rw [← hz, pushOperator_eq_displace]
    exact hy.displace o
  | equals => exact absurd h (by simp [Yard.feed])
  | unknown w => exact absurd h (by simp [Yard.feed])

theorem Rising.feedAll {y z : Yard} {ts : List Token} (hy : y.Rising)
    (h : y.feedAll ts = .ok z) : z.Rising := by
  induction ts generalizing y with
  | nil =>
    have hz := Except.ok.inj h
    rwa [← hz]
  | cons t ts ih =>
    obtain ⟨y', hfeed, hrest⟩ := bind_eq_ok_iff.1 h
    exact ih (hy.feed hfeed) hrest

/-- Read from the bottom, operators next to each other bind tighter and tighter. -/
theorem Rising.sortedLT {y : Yard} (hy : y.Rising) {os : List Operator}
    (h : os.map .op <:+: y.held.reverse) : (os.map Operator.precedence).SortedLT := by
  have hreverse : y.held.reverse.IsChain fun below above => Held.StandsOn above below :=
    List.isChain_reverse.2 hy
  have hsegment := List.IsChain.infix hreverse h
  have hos := (List.isChain_map Held.op).1 hsegment
  refine List.IsChain.sortedLT ((List.isChain_map Operator.precedence).2 (hos.imp ?_))
  intro q o hqo
  exact Held.standsOn_op_op_iff.1 hqo

/-- The order is all that there is to say about what waits: whatever stands in this order is held
    behind some tokens. -/
theorem exists_feedAll_iff_isChain {held : List Held} :
    (∃ ts out, empty.feedAll ts = .ok ⟨held, out⟩) ↔ held.IsChain Held.StandsOn := by
  constructor
  · rintro ⟨ts, out, h⟩
    exact rising_empty.feedAll h
  · intro hheld
    induction held with
    | nil => exact ⟨[], [], rfl⟩
    | cons k held ih =>
      obtain ⟨htop, hbelow⟩ := List.isChain_cons.1 hheld
      obtain ⟨ts, out, h⟩ := ih hbelow
      cases k with
      | group =>
        refine ⟨ts ++ [.leftParen], out, ?_⟩
        rw [feedAll_append, h]
        rfl
      | op o =>
        refine ⟨ts ++ [.op o], out, ?_⟩
        have hpush : pushOperator ⟨held, out⟩ o = ⟨.op o :: held, out⟩ :=
          (pushOperator_eq_displace _ o).trans (displace_eq_hold htop)
        rw [feedAll_append, h]
        exact congrArg Except.ok hpush

/-! ## Every state of a conversion -/

/-- **What holds in every state of a conversion.** Behind the tokens, and also when some operators on
    top have left since:

    * operators that wait next to each other bind tighter and tighter from the bottom to the top, so
      there are at most three of them;
    * the groups that are open are the opening parentheses less the closing ones;
    * what has left and the operators that wait are the tokens without the parentheses, rearranged;
    * an operator is taken in by the one rule, whichever case it falls under. -/
theorem feedAll_invariant {ts : List Token} {y z : Yard} (h : empty.feedAll ts = .ok y)
    (hz : y.Pops z) :
    (∀ os : List Operator, os.map .op <:+: z.held.reverse →
      (os.map Operator.precedence).SortedLT ∧ os.length ≤ 3) ∧
    z.groups + ts.count .rightParen = ts.count .leftParen ∧
    (z.contents.map some).Perm
      ((ts.filter fun t => t != .leftParen && t != .rightParen).map Token.item?) ∧
    ∀ o, z.pushOperator o = z.displace o := by
  refine ⟨?_, ?_, ?_, z.pushOperator_eq_displace⟩
  · intro os hos
    have hsorted := (hz.rising (rising_empty.feedAll h)).sortedLT hos
    exact ⟨hsorted, Operator.length_le_three hsorted⟩
  · rw [hz.groups_eq, groups_of_feedAll h]
    exact Nat.zero_add _
  · have hadmitted := exists_feedAll_iff_admitted.1 ⟨y, h⟩
    have hitems : z.contents.Perm (ts.filterMap Token.item?) :=
      hz.contents_perm.trans ((contents_of_feedAll h).trans (.of_eq (List.append_nil _)))
    rw [← Token.map_some_filterMap_item? fun t ht => hadmitted.isForeign_of_mem ht]
    exact hitems.map some

/-- Three operators wait in the open group, the most there can be, and one waits below it. When the
    power has left, another product is taken in above the sum. -/
theorem feedAll_invariant_three_above_group :
    ∃ y z : Yard, empty.feedAll (Token.scan "a-(b+c*2^".toList) = .ok y ∧ y.Pops z ∧
      y.held = [.op .pow, .op .mul, .op .add, .group, .op .sub] ∧
      ([Operator.add, .mul, .pow].map Operator.precedence).SortedLT ∧
      z.groups = 1 ∧ (z.pushOperator .mul).held = [.op .mul, .op .add, .group, .op .sub] := by
  have h : empty.feedAll (Token.scan "a-(b+c*2^".toList) =
      .ok ⟨[.op .pow, .op .mul, .op .add, .group, .op .sub],
        [.number 2, .var ['c'], .var ['b'], .var ['a']]⟩ := rfl
  have hz := Pops.pop (q := .pow) (.refl ⟨[.op .mul, .op .add, .group, .op .sub],
    [.op .pow, .number 2, .var ['c'], .var ['b'], .var ['a']]⟩)
  refine ⟨_, _, h, hz, rfl, ?_, ?_, ?_⟩
  · exact ((feedAll_invariant h (.refl _)).1 [.add, .mul, .pow] (by decide)).1
  · exact (feedAll_invariant h hz).2.1
  · rw [(feedAll_invariant h hz).2.2.2 .mul]
    rfl

end Yard

end LineCalculator
