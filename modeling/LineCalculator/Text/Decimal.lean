import LineCalculator.Text.Ascii

/-!
# Decimal integers

A numeral is a text of digits, leading zeros allowed, and its value is the one of Horner's rule.
Printing gives the one canonical text: no leading zero, a minus sign exactly before a negative
number.

Numerals may have very many digits, and one digit at a time costs an operation on the whole number
for each of them. So both directions work by halves: the value of a long numeral comes from the
values of its two halves, and `padded k` gets its `2 ^ k` digits from the quotient and the remainder
by `10 ^ 2 ^ (k - 1)`. Proofs need not see this: `numeralValue_eq_horner` gives the value by
Horner's rule, and `numeralValue_append` the value of two texts in a row.

The main statement is that a printed number reads back (`numeralValue_ofNat`).
-/

set_option autoImplicit false

namespace LineCalculator.Decimal

-- A power in this module is the one of the core library.
attribute [local instance (high)] instPowNat

/-! ## Reading -/

/-- The value of a digit. -/
def digitValue (c : Char) : Nat := c.toNat - '0'.toNat

/-- Horner's rule: each digit adds itself to ten times what stands before it. -/
def horner (s : Text) : Nat := s.foldl (fun n c => 10 * n + digitValue c) 0

/-- The value of a text of digits, halved `k` times before Horner's rule is used on what is left. -/
def valueByHalves : Nat → Text → Nat
  | 0, s => horner s
  | k + 1, s =>
    let half := s.length / 2
    valueByHalves k (s.take half) * 10 ^ (s.length - half) + valueByHalves k (s.drop half)

/-- The number that a text of digits denotes. It is halved down to parts of about a hundred
    digits. -/
def numeralValue (s : Text) : Nat := valueByHalves (s.length.log2 - 6) s

/-- The text without its first character if that is a sign. -/
def dropSign : Text → Text
  | [] => []
  | c :: s => if isSign c then s else c :: s

/-- The integer that a text denotes: a non-empty run of digits, at most one sign before it, and
    nothing else. -/
def readInt? (s : Text) : Option Int :=
  if (dropSign s).isNumeral then
    let n : Int := numeralValue (dropSign s)
    some (if s.head? = some '-' then -n else n)
  else none

/-! ## Printing -/

/-- The last `2 ^ k` decimal digits of `n`, leading zeros included, in front of `rest`. -/
def padded : Nat → Nat → Text → Text
  | 0, n, rest => Nat.digitChar (n % 10) :: rest
  | k + 1, n, rest =>
    let digits : Nat := 2 ^ k
    padded k (n / 10 ^ digits) (padded k (n % 10 ^ digits) rest)

/-- A `k` for which `2 ^ k` digits are enough to write `n`, since three binary digits are worth less
    than a decimal one. -/
def enoughHalvings (n : Nat) : Nat := (n.log2 / 3 + 1).log2 + 1

/-- The canonical decimal text of a natural number. -/
def ofNat (n : Nat) : Text :=
  if n = 0 then ['0'] else (padded (enoughHalvings n) n []).dropWhile (· == '0')

/-- The canonical decimal text of an integer. -/
def ofInt : Int → Text
  | .ofNat n => ofNat n
  | .negSucc n => '-' :: ofNat (n + 1)

/-! ## The value of a numeral -/

theorem foldl_eq_horner (s : Text) (m : Nat) :
    s.foldl (fun n c => 10 * n + digitValue c) m = m * 10 ^ s.length + horner s := by
  induction s generalizing m with
  | nil => simp [horner]
  | cons c s ih =>
    rw [horner, List.foldl_cons, List.foldl_cons, ih, ih, List.length_cons, Nat.pow_succ]
    grind

theorem horner_append (s t : Text) : horner (s ++ t) = horner s * 10 ^ t.length + horner t := by
  rw [horner, List.foldl_append, foldl_eq_horner, ← horner]

theorem valueByHalves_eq (k : Nat) (s : Text) : valueByHalves k s = horner s := by
  induction k generalizing s with
  | zero => rfl
  | succ k ih =>
    rw [valueByHalves, ih, ih, ← List.length_drop, ← horner_append, List.take_append_drop]

/-- The value is that of Horner's rule, however the numeral is halved. -/
theorem numeralValue_eq_horner (s : Text) : numeralValue s = horner s := valueByHalves_eq _ s

/-- Reading two texts in a row shifts the first by the length of the second. -/
theorem numeralValue_append (s t : Text) :
    numeralValue (s ++ t) = numeralValue s * 10 ^ t.length + numeralValue t := by
  simp only [numeralValue_eq_horner, horner_append]

/-- A leading zero adds nothing. -/
theorem numeralValue_dropWhile_zero (s : Text) :
    numeralValue (s.dropWhile (· == '0')) = numeralValue s := by
  simp only [numeralValue_eq_horner]
  induction s with
  | nil => rfl
  | cons c s ih =>
    by_cases h : c = '0'
    · subst h
      rw [List.dropWhile_cons_of_pos rfl, ih]
      rfl
    · rw [List.dropWhile_cons_of_neg (by simpa using h)]

/-! ## The digits of a number -/

theorem digitValue_digitChar {n : Nat} (h : n < 10) : digitValue (Nat.digitChar n) = n := by
  revert n
  decide

theorem isDigit_digitChar {n : Nat} (h : n < 10) : (Nat.digitChar n).isDigit = true := by
  revert n
  decide

theorem padded_eq_append (k n : Nat) (rest : Text) : padded k n rest = padded k n [] ++ rest := by
  induction k generalizing n rest with
  | zero => rfl
  | succ k ih =>
    rw [padded, padded, ih _ (padded k _ rest), ih _ rest, ih _ (padded k _ []),
      List.append_assoc]

theorem length_padded (k n : Nat) (rest : Text) :
    (padded k n rest).length = 2 ^ k + rest.length := by
  induction k generalizing n rest with
  | zero => simp [padded, Nat.add_comm]
  | succ k ih => rw [padded, ih, ih, Nat.pow_succ]; omega

theorem isDigit_of_mem_padded {k n : Nat} {c : Char} (h : c ∈ padded k n []) :
    c.isDigit = true := by
  induction k generalizing n with
  | zero =>
    rw [padded, List.mem_singleton] at h
    exact h ▸ isDigit_digitChar (Nat.mod_lt _ (by decide))
  | succ k ih =>
    rw [padded, padded_eq_append, List.mem_append] at h
    exact h.elim ih ih

/-- The padded text denotes the number that it pads. -/
theorem numeralValue_padded {k n : Nat} (h : n < 10 ^ (2 ^ k : Nat)) :
    numeralValue (padded k n []) = n := by
  induction k generalizing n with
  | zero =>
    have hn : n < 10 := by simpa using h
    have hd : n % 10 = n := Nat.mod_eq_of_lt hn
    simp [padded, numeralValue_eq_horner, horner, hd, digitValue_digitChar hn]
  | succ k ih =>
    have hpos : 0 < 10 ^ 2 ^ k := Nat.pow_pos (by decide)
    have hq : n / 10 ^ 2 ^ k < 10 ^ 2 ^ k := by
      rw [Nat.div_lt_iff_lt_mul hpos, ← Nat.pow_add]
      rwa [Nat.pow_succ, Nat.mul_two] at h
    rw [padded, padded_eq_append, numeralValue_append, length_padded, ih hq,
      ih (Nat.mod_lt _ hpos)]
    exact Nat.div_add_mod' n _

theorem lt_ten_pow_enoughHalvings (n : Nat) : n < 10 ^ (2 ^ enoughHalvings n : Nat) := by
  have hbits : n < 2 ^ (n.log2 + 1) := Nat.lt_log2_self
  have hk : n.log2 / 3 + 1 < 2 ^ enoughHalvings n := Nat.lt_log2_self
  calc n < 2 ^ (n.log2 + 1) := hbits
    _ ≤ 2 ^ (3 * 2 ^ enoughHalvings n) := Nat.pow_le_pow_right (by decide) (by omega)
    _ = 8 ^ 2 ^ enoughHalvings n := by rw [Nat.pow_mul]
    _ ≤ 10 ^ 2 ^ enoughHalvings n := Nat.pow_le_pow_left (by decide) _

/-- A printed number reads back. -/
theorem numeralValue_ofNat (n : Nat) : numeralValue (ofNat n) = n := by
  unfold ofNat
  split
  · next h => subst h; rfl
  · rw [numeralValue_dropWhile_zero, numeralValue_padded (lt_ten_pow_enoughHalvings n)]

theorem isDigit_of_mem_ofNat {n : Nat} {c : Char} (h : c ∈ ofNat n) : c.isDigit = true := by
  unfold ofNat at h
  split at h
  · rw [List.mem_singleton] at h
    exact h ▸ rfl
  · exact isDigit_of_mem_padded ((List.dropWhile_sublist _).subset h)

/-- A printed number is a numeral: zero is printed too, and no other number starts with all zeros. -/
theorem isNumeral_ofNat (n : Nat) : (ofNat n).isNumeral = true := by
  refine Text.isNumeral_iff.2 ⟨?_, fun c => isDigit_of_mem_ofNat⟩
  intro hnil
  have hvalue := numeralValue_ofNat n
  rw [hnil, numeralValue_eq_horner] at hvalue
  have hzero : n = 0 := hvalue.symm
  rw [hzero] at hnil
  exact absurd hnil (by decide)

end LineCalculator.Decimal
