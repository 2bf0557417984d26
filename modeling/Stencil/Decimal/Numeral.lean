/-! # Numerals

An unsigned decimal numeral is a run of ASCII digits with at most one point in or after it. It is
kept as the number it denotes, a coefficient divided by a power of ten, and grows by one character
at a time. `digits` writes a natural number; `ofDigits?_digits` says that it reads back.
-/

namespace Stencil.Decimal

/-- The ASCII digit of a number below ten. -/
def digit (n : Nat) : Char :=
  Char.ofNat (48 + n)

/-- The number of an ASCII digit. -/
def digitValue (c : Char) : Nat :=
  c.toNat - 48

/-- The decimal digits of a natural number, without leading zeros. -/
def digits (n : Nat) : List Char :=
  if n < 10 then [digit n] else digits (n / 10) ++ [digit (n % 10)]

/-- The decimal digits of an integer, after a sign when it is negative. -/
def integerText (n : Int) : String :=
  String.ofList (if n < 0 then '-' :: digits n.natAbs else digits n.natAbs)

/-- The number `coefficient / 10 ^ places`; no places means that no point has been read. -/
structure Numeral where
  coefficient : Nat
  places : Option Nat
  deriving DecidableEq, Repr

namespace Numeral

/-- The numeral of one digit. -/
def ofDigit (c : Char) : Numeral :=
  ⟨digitValue c, none⟩

/-- The numeral followed by one more character: a digit, or the first point. -/
def push? (numeral : Numeral) (c : Char) : Option Numeral :=
  if c.isDigit then
    some ⟨10 * numeral.coefficient + digitValue c, numeral.places.map (· + 1)⟩
  else if c = '.' ∧ numeral.places = none then
    some ⟨numeral.coefficient, some 0⟩
  else none

/-- The floating point number nearest to the numeral. -/
def toFloat (numeral : Numeral) : Float :=
  Float.ofScientific numeral.coefficient true (numeral.places.getD 0)

/-- The numeral of a text of digits and at most one point. -/
def ofDigits? : List Char → Option Numeral
  | [] => none
  | first :: rest => if first.isDigit then rest.foldlM push? (ofDigit first) else none

end Numeral

@[simp] theorem digit_isDigit {n : Nat} (small : n < 10) : (digit n).isDigit = true := by
  have cases : n = 0 ∨ n = 1 ∨ n = 2 ∨ n = 3 ∨ n = 4 ∨ n = 5 ∨ n = 6 ∨ n = 7 ∨ n = 8 ∨ n = 9 := by
    omega
  rcases cases with h | h | h | h | h | h | h | h | h | h <;> subst h <;> rfl

@[simp] theorem digitValue_digit {n : Nat} (small : n < 10) : digitValue (digit n) = n := by
  have cases : n = 0 ∨ n = 1 ∨ n = 2 ∨ n = 3 ∨ n = 4 ∨ n = 5 ∨ n = 6 ∨ n = 7 ∨ n = 8 ∨ n = 9 := by
    omega
  rcases cases with h | h | h | h | h | h | h | h | h | h <;> subst h <;> rfl

theorem isDigit_of_mem_digits (n : Nat) : ∀ c ∈ digits n, c.isDigit = true := by
  induction n using Nat.strongRecOn with
  | _ n ih =>
    rw [digits]
    split
    · next small => simpa using digit_isDigit small
    · next large =>
      refine List.forall_mem_append.mpr ⟨ih (n / 10) (by omega), ?_⟩
      simpa using digit_isDigit (Nat.mod_lt n (by decide))

@[simp] theorem digits_ne_nil (n : Nat) : digits n ≠ [] := by
  rw [digits]
  split <;> simp

namespace Numeral

private theorem ofDigits?_append_digit (text : List Char) (number : Nat) {n : Nat} (small : n < 10)
    (read : ofDigits? text = some ⟨number, none⟩) :
    ofDigits? (text ++ [digit n]) = some ⟨10 * number + n, none⟩ := by
  cases text with
  | nil => simp [ofDigits?] at read
  | cons first rest =>
    by_cases start : first.isDigit
    · simp only [ofDigits?, start, if_true] at read
      simp [ofDigits?, start, List.foldlM_append, read, push?, digit_isDigit small,
        digitValue_digit small]
    · simp [ofDigits?, start] at read

/-- A written natural number reads back as itself. -/
@[simp] theorem ofDigits?_digits (n : Nat) : ofDigits? (digits n) = some ⟨n, none⟩ := by
  induction n using Nat.strongRecOn with
  | _ n ih =>
    rw [digits]
    split
    · next small => simp [ofDigits?, ofDigit, small]
    · next large =>
      rw [ofDigits?_append_digit _ (n / 10) (Nat.mod_lt n (by decide)) (ih _ (by omega))]
      simp only [Option.some.injEq, Numeral.mk.injEq, and_true]
      omega

end Numeral

end Stencil.Decimal
