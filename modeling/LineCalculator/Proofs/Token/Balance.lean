import LineCalculator.Postfix.Phrase

/-!
# Balanced tokens are phrases

A phrase is a nesting, a list of tokens is flat, and the parentheses are all that tells the nesting.
This file says that they tell it **exactly**: tokens without an equals sign or an unknown word are
those of a phrase if and only if their parentheses balance (`exists_tokens_eq_iff`), and the phrase
is then the only one (`tokens_injective`). So "the phrase that these tokens form" is well defined,
which every statement about its order takes for granted.

Balance is counted (`Closes`), as it would be said of a text: no beginning holds more closing than
opening parentheses, and the whole holds as many. Both directions of the induction meet tokens in
the middle of open groups, so the count starts at the number `n` of groups that are open already.
-/

set_option autoImplicit false

namespace LineCalculator

namespace Token

/-- The tokens that stand in no phrase. -/
def isForeign : Token → Bool
  | equals | unknown _ => true
  | _ => false

/-- With `n` groups open before them, the tokens never close one that is not open, and leave none
    open. -/
structure Closes (n : Nat) (ts : List Token) : Prop where
  never_below : ∀ us vs, ts = us ++ vs → us.count rightParen ≤ n + us.count leftParen
  all : ts.count rightParen = n + ts.count leftParen

/-- The parentheses match. -/
def Balanced (ts : List Token) : Prop := Closes 0 ts

/-! ## One token at a time -/

theorem closes_nil_iff {n : Nat} : Closes n [] ↔ n = 0 := by
  constructor
  · intro h
    have := h.all
    simp only [List.count_nil] at this
    omega
  · rintro rfl
    refine ⟨fun us vs h => ?_, rfl⟩
    obtain ⟨rfl, -⟩ := List.append_eq_nil_iff.1 h.symm
    simp

/-- A token that is no parenthesis leaves the open groups as they are. -/
theorem closes_cons_iff {n : Nat} {t : Token} {ts : List Token} (hl : t ≠ leftParen)
    (hr : t ≠ rightParen) : Closes n (t :: ts) ↔ Closes n ts := by
  constructor
  · intro h
    refine ⟨fun us vs huv => ?_, ?_⟩
    · have := h.never_below (t :: us) vs (by rw [huv, List.cons_append])
      rwa [List.count_cons_of_ne hr, List.count_cons_of_ne hl] at this
    · have := h.all
      rwa [List.count_cons_of_ne hr, List.count_cons_of_ne hl] at this
  · intro h
    refine ⟨fun us vs huv => ?_, ?_⟩
    · cases us with
      | nil => simp
      | cons u us =>
        obtain ⟨rfl, rfl⟩ := List.cons.inj huv
        rw [List.count_cons_of_ne hr, List.count_cons_of_ne hl]
        exact h.never_below us vs rfl
    · rw [List.count_cons_of_ne hr, List.count_cons_of_ne hl]
      exact h.all

theorem closes_leftParen_iff {n : Nat} {ts : List Token} :
    Closes n (leftParen :: ts) ↔ Closes (n + 1) ts := by
  have hl : ∀ us : List Token, (leftParen :: us).count leftParen = us.count leftParen + 1 :=
    fun us => List.count_cons_self
  have hr : ∀ us : List Token, (leftParen :: us).count rightParen = us.count rightParen :=
    fun us => List.count_cons_of_ne (by decide)
  constructor
  · intro h
    refine ⟨fun us vs huv => ?_, ?_⟩
    · have := h.never_below (leftParen :: us) vs (by rw [huv, List.cons_append])
      rw [hl, hr] at this
      omega
    · have := h.all
      rw [hl, hr] at this
      omega
  · intro h
    refine ⟨fun us vs huv => ?_, ?_⟩
    · cases us with
      | nil => simp
      | cons u us =>
        obtain ⟨rfl, rfl⟩ := List.cons.inj huv
        have := h.never_below us vs rfl
        rw [hl, hr]
        omega
    · have := h.all
      rw [hl, hr]
      omega

theorem closes_rightParen_iff {n : Nat} {ts : List Token} :
    Closes n (rightParen :: ts) ↔ ∃ m, n = m + 1 ∧ Closes m ts := by
  have hl : ∀ us : List Token, (rightParen :: us).count leftParen = us.count leftParen :=
    fun us => List.count_cons_of_ne (by decide)
  have hr : ∀ us : List Token, (rightParen :: us).count rightParen = us.count rightParen + 1 :=
    fun us => List.count_cons_self
  constructor
  · intro h
    -- The parenthesis by itself is a beginning, so some group is open.
    have hn : 1 ≤ n := by simpa using h.never_below [rightParen] ts rfl
    refine ⟨n - 1, by omega, fun us vs huv => ?_, ?_⟩
    · have := h.never_below (rightParen :: us) vs (by rw [huv, List.cons_append])
      rw [hl, hr] at this
      omega
    · have := h.all
      rw [hl, hr] at this
      omega
  · rintro ⟨m, rfl, h⟩
    refine ⟨fun us vs huv => ?_, ?_⟩
    · cases us with
      | nil => simp
      | cons u us =>
        obtain ⟨rfl, rfl⟩ := List.cons.inj huv
        have := h.never_below us vs rfl
        rw [hl, hr]
        omega
    · have := h.all
      rw [hl, hr]
      omega

end Token

namespace Phrase

open Token

/-! ## From tokens to a phrase -/

/-- The tokens of phrases that each end with the group they stand in. -/
def closing (ps : List Phrase) : List Token := ps.flatMap fun p => .rightParen :: p.tokens

@[simp] theorem closing_cons (p : Phrase) (ps : List Phrase) :
    closing (p :: ps) = .rightParen :: (p.tokens ++ closing ps) := rfl

/-- With `n` groups open, the tokens are the rest of the innermost phrase, and then the rest of one
    phrase around it for each group that closes. -/
theorem exists_of_closes {n : Nat} {ts : List Token} (hts : ∀ t ∈ ts, t.isForeign = false)
    (h : Closes n ts) :
    ∃ (p : Phrase) (ps : List Phrase), ps.length = n ∧ ts = p.tokens ++ closing ps := by
  induction ts generalizing n with
  | nil =>
    obtain rfl := closes_nil_iff.1 h
    exact ⟨nil, [], rfl, rfl⟩
  | cons t ts ih =>
    obtain ⟨ht, hrest⟩ := List.forall_mem_cons.1 hts
    cases t with
    | number ds =>
      obtain ⟨p, ps, hps, rfl⟩ := ih hrest ((closes_cons_iff (by simp) (by simp)).1 h)
      exact ⟨number ds p, ps, hps, rfl⟩
    | name x =>
      obtain ⟨p, ps, hps, rfl⟩ := ih hrest ((closes_cons_iff (by simp) (by simp)).1 h)
      exact ⟨name x p, ps, hps, rfl⟩
    | op o =>
      obtain ⟨p, ps, hps, rfl⟩ := ih hrest ((closes_cons_iff (by simp) (by simp)).1 h)
      exact ⟨op o p, ps, hps, rfl⟩
    | leftParen =>
      obtain ⟨p, ps, hps, rfl⟩ := ih hrest (closes_leftParen_iff.1 h)
      -- One more group is open inside, so there is a phrase behind it.
      cases ps with
      | nil => exact absurd hps (by simp)
      | cons q ps =>
        refine ⟨group p q, ps, by simpa using hps, ?_⟩
        simp only [closing_cons, tokens, List.cons_append, List.append_assoc]
    | rightParen =>
      obtain ⟨m, rfl, hm⟩ := closes_rightParen_iff.1 h
      obtain ⟨p, ps, rfl, rfl⟩ := ih hrest hm
      exact ⟨nil, p :: ps, rfl, rfl⟩
    | equals => exact absurd ht (by simp [isForeign])
    | unknown w => exact absurd ht (by simp [isForeign])

/-! ## From a phrase to tokens -/

theorem isForeign_of_mem_tokens {p : Phrase} {t : Token} (h : t ∈ p.tokens) :
    t.isForeign = false := by
  induction p with
  | nil => exact absurd h (by simp [tokens])
  | number ds rest ih | name x rest ih | op o rest ih =>
    rcases List.mem_cons.1 h with rfl | h
    · rfl
    · exact ih h
  | group inner rest ihi ihr =>
    rcases List.mem_cons.1 h with rfl | h
    · rfl
    · rcases List.mem_append.1 h with h | h
      · exact ihi h
      · rcases List.mem_cons.1 h with rfl | h
        · rfl
        · exact ihr h

/-- A phrase closes its own groups and no other. -/
theorem closes_tokens_append_iff {n : Nat} {p : Phrase} {ts : List Token} :
    Closes n (p.tokens ++ ts) ↔ Closes n ts := by
  induction p generalizing n ts with
  | nil => rfl
  | number ds rest ih | name x rest ih | op o rest ih =>
    rw [tokens, List.cons_append, closes_cons_iff (by simp) (by simp)]
    exact ih
  | group inner rest ihi ihr =>
    rw [tokens, List.cons_append, List.cons_append, List.append_assoc, closes_leftParen_iff, ihi,
      List.cons_append, closes_rightParen_iff]
    constructor
    · rintro ⟨m, hm, h⟩
      obtain rfl := Nat.succ.inj hm
      exact ihr.1 h
    · intro h
      exact ⟨n, rfl, ihr.2 h⟩

theorem balanced_tokens (p : Phrase) : Balanced p.tokens := by
  have h : Closes 0 (p.tokens ++ []) := closes_tokens_append_iff.2 (closes_nil_iff.2 rfl)
  rwa [List.append_nil] at h

/-- The rows of tokens that are phrases. -/
theorem exists_tokens_eq_iff {ts : List Token} :
    (∃ p : Phrase, p.tokens = ts) ↔ (∀ t ∈ ts, t.isForeign = false) ∧ Balanced ts := by
  constructor
  · rintro ⟨p, rfl⟩
    exact ⟨fun t ht => isForeign_of_mem_tokens ht, balanced_tokens p⟩
  · rintro ⟨hts, hb⟩
    obtain ⟨p, ps, hps, rfl⟩ := exists_of_closes hts hb
    obtain rfl := List.eq_nil_of_length_eq_zero hps
    exact ⟨p, (List.append_nil _).symm⟩

/-! ## Only one phrase -/

/-- Whether the tokens stop here: nothing more, or the end of the group around them. -/
def Stops (ts : List Token) : Prop := ts = [] ∨ ∃ us, ts = .rightParen :: us

/-- A phrase ends where no group of its own is open and the tokens stop, so its tokens tell where
    it ends and what it is. -/
theorem eq_of_tokens_append_eq {p q : Phrase} {ts us : List Token} (hts : Stops ts)
    (hus : Stops us) (h : p.tokens ++ ts = q.tokens ++ us) : p = q ∧ ts = us := by
  induction p generalizing q ts us with
  | nil =>
    cases q with
    | nil => exact ⟨rfl, h⟩
    | _ => rcases hts with rfl | ⟨_, rfl⟩ <;> exact absurd h (by simp [tokens])
  | number ds rest ih =>
    cases q with
    | nil => rcases hus with rfl | ⟨_, rfl⟩ <;> exact absurd h (by simp [tokens])
    | number ds' rest' =>
      obtain ⟨hd, htl⟩ := List.cons.inj h
      obtain rfl := Token.number.inj hd
      obtain ⟨rfl, rfl⟩ := ih hts hus htl
      exact ⟨rfl, rfl⟩
    | _ => exact absurd h (by simp [tokens])
  | name x rest ih =>
    cases q with
    | nil => rcases hus with rfl | ⟨_, rfl⟩ <;> exact absurd h (by simp [tokens])
    | name x' rest' =>
      obtain ⟨hd, htl⟩ := List.cons.inj h
      obtain rfl := Token.name.inj hd
      obtain ⟨rfl, rfl⟩ := ih hts hus htl
      exact ⟨rfl, rfl⟩
    | _ => exact absurd h (by simp [tokens])
  | op o rest ih =>
    cases q with
    | nil => rcases hus with rfl | ⟨_, rfl⟩ <;> exact absurd h (by simp [tokens])
    | op o' rest' =>
      obtain ⟨hd, htl⟩ := List.cons.inj h
      obtain rfl := Token.op.inj hd
      obtain ⟨rfl, rfl⟩ := ih hts hus htl
      exact ⟨rfl, rfl⟩
    | _ => exact absurd h (by simp [tokens])
  | group inner rest ihi ihr =>
    cases q with
    | nil => rcases hus with rfl | ⟨_, rfl⟩ <;> exact absurd h (by simp [tokens])
    | group inner' rest' =>
      simp only [tokens, List.cons_append, List.append_assoc, List.cons.injEq, true_and] at h
      obtain ⟨rfl, hrest⟩ := ihi (Or.inr ⟨_, rfl⟩) (Or.inr ⟨_, rfl⟩) h
      obtain ⟨rfl, rfl⟩ := ihr hts hus (List.cons.inj hrest).2
      exact ⟨rfl, rfl⟩
    | _ => exact absurd h (by simp [tokens])

theorem tokens_injective {p q : Phrase} (h : p.tokens = q.tokens) : p = q := by
  have h' : p.tokens ++ [] = q.tokens ++ [] := by rw [h]
  exact (eq_of_tokens_append_eq (Or.inl rfl) (Or.inl rfl) h').1

/-! ## Phrases in a row -/

/-- One phrase behind another, on the same level. -/
def append : Phrase → Phrase → Phrase
  | nil, q => q
  | number ds rest, q => number ds (rest.append q)
  | name x rest, q => name x (rest.append q)
  | op o rest, q => op o (rest.append q)
  | group inner rest, q => group inner (rest.append q)

theorem tokens_append (p q : Phrase) : (p.append q).tokens = p.tokens ++ q.tokens := by
  induction p with
  | nil => rfl
  | number ds rest ih | name x rest ih | op o rest ih =>
    rw [append, tokens, ih]
    rfl
  | group inner rest _ ih => simp [append, tokens, ih]

theorem level_append (p q : Phrase) : (p.append q).level = p.level ++ q.level := by
  induction p with
  | nil => rfl
  | number ds rest ih | name x rest ih | op o rest ih =>
    rw [append, level, ih]
    rfl
  | group inner rest _ ih =>
    rw [append, level, ih]
    rfl

end Phrase

end LineCalculator
