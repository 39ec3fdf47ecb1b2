import LineCalculator.Proofs.Postfix.Conservation

/-!
# What the yard refuses

A conversion fails in one of two ways. Either a token may not stand where it stands, and then the
first such token decides, whatever follows it; or all tokens are taken in and a group is still open.
Which tokens are refused can be said without the yard (`Token.Refused`): an equals sign and an unknown
word everywhere, and a closing parenthesis if with it there are more of them than opening ones.

The yard decides this by what it holds, and what it holds is counted: opening minus closing
parentheses are the groups that are open (`Yard.groups_of_feedAll`).
-/

set_option autoImplicit false

namespace LineCalculator

namespace Token

/-- Behind the tokens `us` the token may not stand, for this reason. -/
inductive Refused (us : List Token) : Token → Fault → Prop
  | equals : Refused us .equals .strayEquals
  | unknown (w : Text) : Refused us (.unknown w) (.unknownToken w)
  | rightParen :
    us.count leftParen < us.count rightParen + 1 → Refused us .rightParen .unmatchedRightParen

/-- Every token may stand behind those before it. -/
def Admitted (ts : List Token) : Prop :=
  ∀ us t vs f, ts = us ++ t :: vs → ¬ Refused us t f

/-- The first token that may not stand where it stands may not for this reason. -/
def FirstRefusal (ts : List Token) (f : Fault) : Prop :=
  ∃ us t vs, ts = us ++ t :: vs ∧ Admitted us ∧ Refused us t f

theorem FirstRefusal.not_admitted {ts : List Token} {f : Fault} (h : FirstRefusal ts f) :
    ¬ Admitted ts := by
  intro hts
  obtain ⟨us, t, vs, hsplit, -, href⟩ := h
  exact hts us t vs f hsplit href

theorem Admitted.isForeign_of_mem {ts : List Token} (h : Admitted ts) {t : Token} (ht : t ∈ ts) :
    t.isForeign = false := by
  obtain ⟨us, vs, hsplit⟩ := List.append_of_mem ht
  cases t with
  | equals => exact absurd .equals (h us _ vs _ hsplit)
  | unknown w => exact absurd (.unknown w) (h us _ vs _ hsplit)
  | _ => rfl

end Token

namespace Yard

/-! ## One token -/

theorem close_eq_error_iff {held : List Held} {out : List Item} {f : Fault} :
    close held out = .error f ↔ held.count .group = 0 ∧ f = .unmatchedRightParen := by
  induction held generalizing out with
  | nil => simp [close, eq_comm]
  | cons h held ih =>
    cases h with
    | group => simp [close]
    | op q => rw [close, ih, List.count_cons_of_ne (by simp)]

theorem drain_eq_error_iff {held : List Held} {out : List Item} {f : Fault} :
    drain held out = .error f ↔ held.count .group ≠ 0 ∧ f = .unclosedLeftParen := by
  induction held generalizing out with
  | nil => simp [drain]
  | cons h held ih =>
    cases h with
    | group => simp [drain, eq_comm]
    | op q => rw [drain, ih, List.count_cons_of_ne (by simp)]

/-- A token that is taken in opens a group, closes one, or leaves them as they are. -/
theorem Takes.groups_add {y z : Yard} {t : Token} (h : y.Takes t z) :
    z.groups + [t].count .rightParen = y.groups + [t].count .leftParen := by
  cases h with
  | number ds => rfl
  | name x => rfl
  | leftParen => exact groups_hold_group y
  | rightParen hpops =>
    have hgroups := hpops.groups_eq
    rw [groups_hold_group] at hgroups
    exact hgroups
  | op o hpops =>
    rw [groups_hold_op, hpops.groups_eq]
    rfl

/-! ## All tokens -/

theorem groups_of_feedAll {y z : Yard} {ts : List Token} (h : y.feedAll ts = .ok z) :
    z.groups + ts.count .rightParen = y.groups + ts.count .leftParen := by
  induction ts generalizing y with
  | nil =>
    have hz := Except.ok.inj h
    rw [← hz]
    rfl
  | cons t ts ih =>
    obtain ⟨y', hfeed, hrest⟩ := bind_eq_ok_iff.1 h
    have hone := (takes_of_feed hfeed).groups_add
    have hall := ih hrest
    rw [← List.singleton_append, List.count_append, List.count_append]
    omega

/-- The first token that is not taken in ends the conversion. -/
theorem feedAll_eq_error_iff {y : Yard} {ts : List Token} {f : Fault} :
    y.feedAll ts = .error f ↔
      ∃ us t vs z, ts = us ++ t :: vs ∧ y.feedAll us = .ok z ∧ z.feed t = .error f :=
  foldlM_eq_error_iff

/-- Of the tokens before it the yard remembers what it needs: a token is refused exactly if it may
    not stand behind them. -/
theorem feed_eq_error_iff {us : List Token} {y : Yard} (h : empty.feedAll us = .ok y) {t : Token}
    {f : Fault} : y.feed t = .error f ↔ Token.Refused us t f := by
  have hgroups : y.groups + us.count .rightParen = us.count .leftParen := by
    rw [groups_of_feedAll h]
    exact Nat.zero_add _
  have hzero : y.groups = 0 ↔ us.count .leftParen < us.count .rightParen + 1 := by omega
  constructor
  · intro hfeed
    cases t with
    | equals =>
      have hf := Except.error.inj hfeed
      rw [← hf]
      exact .equals
    | unknown w =>
      have hf := Except.error.inj hfeed
      rw [← hf]
      exact .unknown w
    | rightParen =>
      obtain ⟨hnone, hf⟩ := close_eq_error_iff.1 hfeed
      rw [hf]
      exact .rightParen (hzero.1 hnone)
    | leftParen => exact absurd hfeed (by simp [feed])
    | op o => exact absurd hfeed (by simp [feed])
    | name x => exact absurd hfeed (by simp [feed])
    | number ds => exact absurd hfeed (by simp [feed])
  · intro href
    cases href with
    | equals => rfl
    | unknown w => rfl
    | rightParen hlt => exact close_eq_error_iff.2 ⟨hzero.2 hlt, rfl⟩

/-- The yard takes in the tokens that may all stand where they stand. -/
theorem exists_feedAll_iff_admitted {ts : List Token} :
    (∃ y, empty.feedAll ts = .ok y) ↔ Token.Admitted ts := by
  constructor
  · rintro ⟨y, h⟩ us t vs f rfl href
    rw [feedAll_append] at h
    obtain ⟨z, hus, hrest⟩ := bind_eq_ok_iff.1 h
    obtain ⟨z', ht, -⟩ := bind_eq_ok_iff.1 hrest
    have herror := (feed_eq_error_iff hus).2 href
    exact absurd (ht.symm.trans herror) (by simp)
  · intro hts
    cases h : empty.feedAll ts with
    | ok y => exact ⟨y, rfl⟩
    | error f =>
      obtain ⟨us, t, vs, z, hsplit, hus, ht⟩ := feedAll_eq_error_iff.1 h
      exact absurd ((feed_eq_error_iff hus).1 ht) (hts us t vs f hsplit)

theorem feedAll_eq_error_iff_firstRefusal {ts : List Token} {f : Fault} :
    empty.feedAll ts = .error f ↔ Token.FirstRefusal ts f := by
  rw [feedAll_eq_error_iff]
  constructor
  · rintro ⟨us, t, vs, z, hts, hus, ht⟩
    exact ⟨us, t, vs, hts, exists_feedAll_iff_admitted.1 ⟨z, hus⟩, (feed_eq_error_iff hus).1 ht⟩
  · rintro ⟨us, t, vs, hts, hus, ht⟩
    obtain ⟨z, hz⟩ := exists_feedAll_iff_admitted.2 hus
    exact ⟨us, t, vs, z, hts, hz, (feed_eq_error_iff hz).2 ht⟩

end Yard

namespace Postfix

/-- The two ways in which a conversion fails. -/
theorem ofTokens_eq_error_iff {ts : List Token} {f : Fault} :
    ofTokens ts = .error f ↔ Token.FirstRefusal ts f ∨
      Token.Admitted ts ∧ ts.count .rightParen < ts.count .leftParen ∧ f = .unclosedLeftParen := by
  have hopen : ∀ y, Yard.empty.feedAll ts = .ok y →
      (y.held.count .group ≠ 0 ↔ ts.count .rightParen < ts.count .leftParen) := by
    intro y hy
    have hgroups := Yard.groups_of_feedAll hy
    have hempty : Yard.empty.groups = 0 := rfl
    rw [← Yard.groups]
    omega
  rw [ofTokens, bind_eq_error_iff, Yard.feedAll_eq_error_iff_firstRefusal,
    ← Yard.exists_feedAll_iff_admitted]
  refine or_congr_right ?_
  constructor
  · rintro ⟨y, hy, hdrain⟩
    obtain ⟨hne, hf⟩ := Yard.drain_eq_error_iff.1 hdrain
    exact ⟨⟨y, hy⟩, (hopen y hy).1 hne, hf⟩
  · rintro ⟨⟨y, hy⟩, hlt, hf⟩
    exact ⟨y, hy, Yard.drain_eq_error_iff.2 ⟨(hopen y hy).2 hlt, hf⟩⟩

/-- The conversion succeeds if all tokens may stand where they stand and all groups are closed. -/
theorem exists_ofTokens_iff {ts : List Token} :
    (∃ p, ofTokens ts = .ok p) ↔
      Token.Admitted ts ∧ ts.count .leftParen = ts.count .rightParen := by
  constructor
  · rintro ⟨p, h⟩
    obtain ⟨y, hfeed, hdrain⟩ := bind_eq_ok_iff.1 h
    have hclosed : y.groups = 0 := Yard.groups_of_drain hdrain
    have hgroups := Yard.groups_of_feedAll hfeed
    have hempty : Yard.empty.groups = 0 := rfl
    exact ⟨Yard.exists_feedAll_iff_admitted.1 ⟨y, hfeed⟩, by omega⟩
  · rintro ⟨hts, hcount⟩
    cases h : ofTokens ts with
    | ok p => exact ⟨p, rfl⟩
    | error f =>
      rcases ofTokens_eq_error_iff.1 h with href | ⟨-, hlt, -⟩
      · exact absurd hts href.not_admitted
      · exact absurd hcount (by omega)

/-- Of the tokens of a phrase only the parentheses are not among the items. -/
theorem length_of_ofTokens {ts : List Token} {p : Postfix} (h : ofTokens ts = .ok p) :
    p.length = ts.countP fun t => t != .leftParen && t != .rightParen := by
  have hts := (exists_ofTokens_iff.1 ⟨p, h⟩).1
  rw [(perm_of_ofTokens h).length_eq, List.length_filterMap_eq_countP]
  refine List.countP_congr ?_
  intro t ht
  have hforeign := hts.isForeign_of_mem ht
  cases t with
  | equals => exact absurd hforeign (by decide)
  | unknown w => exact absurd hforeign (by simp [Token.isForeign])
  | _ => simp [Token.item?]

/-- **What becomes of a text, token by token.** If some token may not stand where it stands, the
    first such token is the error, and if there is none but a group stays open, that is; no other
    text fails. Otherwise the postfix sequence has the numbers and names of the text in their order,
    its operators in some order, and nothing else: it is as long as the text without its
    parentheses. -/
theorem ofText_refuses_or_rearranges (s : Text) :
    (∀ f, ofText s = .error f ↔ Token.FirstRefusal (Token.scan s) f ∨
      Token.Admitted (Token.scan s) ∧
        (Token.scan s).count .rightParen < (Token.scan s).count .leftParen ∧
        f = .unclosedLeftParen) ∧
    ((∃ p, ofText s = .ok p) ↔ Token.Admitted (Token.scan s) ∧
      (Token.scan s).count .leftParen = (Token.scan s).count .rightParen) ∧
    ∀ p, ofText s = .ok p →
      p.filter Item.isOperand = ((Token.scan s).filterMap Token.item?).filter Item.isOperand ∧
      (p.filter fun i => !i.isOperand).Perm
        (((Token.scan s).filterMap Token.item?).filter fun i => !i.isOperand) ∧
      p.length = (Token.scan s).countP fun t => t != .leftParen && t != .rightParen := by
  refine ⟨fun f => ofTokens_eq_error_iff, exists_ofTokens_iff, ?_⟩
  intro p hp
  exact ⟨operands_of_ofTokens hp, (perm_of_ofTokens hp).filter _, length_of_ofTokens hp⟩

end Postfix

end LineCalculator
