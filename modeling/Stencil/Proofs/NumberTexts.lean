import Stencil.Decimal.Layout
import Stencil.Proofs.FloatingPointValues

/-! # Texts of numbers

A number is written with digits, or with digits, a point and any number of digits behind it. These
are the texts that are read as numerals, `NumberText.ofDigits?_toList` and
`NumberText.exists_of_ofDigits?`, and a number that is written by position is one of them,
`Layout.exists_numberText`.
-/

namespace Stencil.Decimal

section Digits

/-- The number that digits denote. -/
def numberOf (digits : List Char) : Nat :=
  digits.foldl (fun number c => 10 * number + digitValue c) 0

private theorem foldl_digits (digits : List Char) (number : Nat) :
    digits.foldl (fun number c => 10 * number + digitValue c) number =
      number * 10 ^ digits.length + numberOf digits := by
  induction digits generalizing number with
  | nil => simp [numberOf]
  | cons c rest ih =>
    rw [numberOf, List.foldl_cons, List.foldl_cons, ih, ih (10 * 0 + _), List.length_cons]
    ring

private theorem numberOf_append (front rest : List Char) :
    numberOf (front ++ rest) = numberOf front * 10 ^ rest.length + numberOf rest := by
  rw [numberOf, List.foldl_append, foldl_digits]
  rfl

private theorem numberOf_cons (c : Char) (rest : List Char) :
    numberOf (c :: rest) = digitValue c * 10 ^ rest.length + numberOf rest := by
  rw [numberOf, List.foldl_cons, foldl_digits, Nat.mul_zero, Nat.zero_add]

theorem digitValue_lt {c : Char} (digit : c.isDigit = true) : digitValue c < 10 := by
  simp only [Char.isDigit, Bool.and_eq_true, decide_eq_true_eq] at digit
  have upper : c.toNat ≤ 57 := digit.2
  rw [digitValue]
  omega

theorem numberOf_lt {digits : List Char} (are : ∀ c ∈ digits, c.isDigit = true) :
    numberOf digits < 10 ^ digits.length := by
  induction digits using List.reverseRecOn with
  | nil => simp [numberOf]
  | append_singleton front c ih =>
    obtain ⟨areFront, isLast⟩ := List.forall_mem_append.mp are
    have here := digitValue_lt (isLast c (List.mem_singleton_self c))
    have there := ih areFront
    have last : numberOf [c] = digitValue c := by simp [numberOf]
    rw [numberOf_append, last, List.length_append, List.length_singleton, pow_succ _ front.length,
      pow_one]
    omega

@[simp] theorem numberOf_digits (n : Nat) : numberOf (digits n) = n := by
  induction n using Nat.strongRecOn with
  | _ n ih =>
    rw [digits]
    split
    · next small => simp [numberOf, small]
    · next large =>
      have last : numberOf [digit (n % 10)] = n % 10 := by
        simp [numberOf, Nat.mod_lt n]
      rw [numberOf_append, ih (n / 10) (by omega), last, List.length_singleton, pow_one]
      omega

@[simp] theorem numberOf_zeros (count : Nat) : numberOf (List.replicate count '0') = 0 := by
  induction count with
  | zero => rfl
  | succ count ih =>
    rw [List.replicate_succ', numberOf_append, ih]
    rfl

private theorem isDigit_of_mem_zeros {count : Nat} :
    ∀ c ∈ List.replicate count '0', c.isDigit = true := by
  intro c member
  rw [List.eq_of_mem_replicate member]
  rfl

/-- Without leading zeros the length tells how large a number is. -/
theorem pow_le_of_digits {n : Nat} (positive : 0 < n) : 10 ^ ((digits n).length - 1) ≤ n := by
  induction n using Nat.strongRecOn with
  | _ n ih =>
    rw [digits]
    split
    · exact positive
    · next large =>
      have shorter := ih (n / 10) (by omega) (by omega)
      have filled := List.length_pos_iff.mpr (digits_ne_nil (n / 10))
      rw [List.length_append, List.length_singleton, Nat.add_sub_cancel]
      calc 10 ^ (digits (n / 10)).length = 10 ^ ((digits (n / 10)).length - 1) * 10 := by
            rw [← pow_succ, Nat.sub_add_cancel filled]
        _ ≤ n / 10 * 10 := Nat.mul_le_mul_right _ shorter
        _ ≤ n := Nat.div_mul_le_self n 10

end Digits

/-- Digits, and the digits behind the point if there is one. -/
structure NumberText where
  whole : List Char
  fraction : Option (List Char)
  filled : whole ≠ []
  whole_digits : ∀ c ∈ whole, c.isDigit = true
  fraction_digits : ∀ digits ∈ fraction, ∀ c ∈ digits, c.isDigit = true

namespace NumberText

/-- The characters of the text. -/
def toList (text : NumberText) : List Char :=
  match text.fraction with
  | none => text.whole
  | some digits => text.whole ++ '.' :: digits

/-- The number that the digits denote without the point, and the number of digits behind it. -/
def numeral (text : NumberText) : Numeral :=
  ⟨numberOf (text.whole ++ text.fraction.getD []), text.fraction.map List.length⟩

private theorem foldlM_digits {digits : List Char} (are : ∀ c ∈ digits, c.isDigit = true)
    (numeral : Numeral) : digits.foldlM Numeral.push? numeral =
      some ⟨numeral.coefficient * 10 ^ digits.length + numberOf digits,
        numeral.places.map (· + digits.length)⟩ := by
  induction digits generalizing numeral with
  | nil =>
    obtain ⟨coefficient, places⟩ := numeral
    simp [numberOf]
  | cons c rest ih =>
    obtain ⟨isDigit, areRest⟩ := List.forall_mem_cons.mp are
    rw [List.foldlM_cons, Numeral.push?, if_pos isDigit, Option.bind_eq_bind, Option.bind_some,
      ih areRest, numberOf_cons, Option.map_map, List.length_cons]
    congr 2
    · ring
    · congr 1
      funext places
      exact Nat.add_right_comm _ _ _

/-- The text is read as the number that it denotes. -/
@[simp] theorem ofDigits?_toList (text : NumberText) :
    Numeral.ofDigits? text.toList = some text.numeral := by
  obtain ⟨whole, fraction, filled, whole_digits, fraction_digits⟩ := text
  obtain ⟨first, rest, rfl⟩ := List.exists_cons_of_ne_nil filled
  obtain ⟨isDigit, areRest⟩ := List.forall_mem_cons.mp whole_digits
  have start : rest.foldlM Numeral.push? (.ofDigit first) =
      some ⟨numberOf (first :: rest), none⟩ := by
    rw [foldlM_digits areRest, numberOf_cons]
    rfl
  cases fraction with
  | none =>
    simp only [toList, numeral, Numeral.ofDigits?, if_pos isDigit, start]
    simp
  | some digits =>
    have point : Numeral.push? ⟨numberOf (first :: rest), none⟩ '.' =
        some ⟨numberOf (first :: rest), some 0⟩ := rfl
    simp only [toList, numeral, List.cons_append, Numeral.ofDigits?, if_pos isDigit,
      List.foldlM_append, start, List.foldlM_cons, point, Option.bind_eq_bind, Option.bind_some,
      foldlM_digits (fraction_digits digits rfl), Option.getD_some, Option.map_some, Nat.zero_add]
    rw [← List.cons_append, numberOf_append]

/-- A character that a numeral grows by is one more digit, or the point. -/
theorem exists_push {number : NumberText} {c : Char} {longer : Numeral}
    (pushed : number.numeral.push? c = some longer) :
    ∃ next : NumberText, next.toList = number.toList ++ [c] ∧ next.numeral = longer := by
  obtain ⟨whole, fraction, filled, whole_digits, fraction_digits⟩ := number
  rw [Numeral.push?] at pushed
  split at pushed
  · next isDigit =>
    obtain rfl := Option.some.inj pushed
    have value (digits : List Char) : numberOf (digits ++ [c]) =
        10 * numberOf digits + digitValue c := by
      rw [numberOf_append, numberOf_cons, Nat.mul_comm]
      simp [numberOf]
    have digits_append {digits : List Char} (are : ∀ d ∈ digits, d.isDigit = true) :
        ∀ d ∈ digits ++ [c], d.isDigit = true :=
      List.forall_mem_append.mpr ⟨are, List.forall_mem_singleton.mpr isDigit⟩
    cases fraction with
    | none =>
      refine ⟨⟨whole ++ [c], none, by simp, digits_append whole_digits, by simp⟩, rfl, ?_⟩
      simp [numeral, value]
    | some digits =>
      refine ⟨⟨whole, some (digits ++ [c]), filled, whole_digits, ?_⟩, by simp [toList], ?_⟩
      · rintro _ ⟨⟩
        exact digits_append (fraction_digits digits rfl)
      · simp [numeral, ← List.append_assoc, value]
  · split at pushed
    · next point =>
      obtain ⟨rfl, none⟩ := point
      obtain rfl := Option.some.inj pushed
      obtain rfl : fraction = .none := Option.map_eq_none_iff.mp none
      refine ⟨⟨whole, some [], filled, whole_digits, ?_⟩, rfl, rfl⟩
      rintro _ ⟨⟩
      exact List.forall_mem_nil _
    · cases pushed

/-- The text of a single digit. -/
def ofDigit {c : Char} (isDigit : c.isDigit = true) : NumberText where
  whole := [c]
  fraction := none
  filled := List.cons_ne_nil c []
  whole_digits := List.forall_mem_singleton.mpr isDigit
  fraction_digits := by simp

/-- Only such texts are read as numbers. -/
theorem exists_of_ofDigits? {text : List Char} {numeral : Numeral}
    (read : Numeral.ofDigits? text = some numeral) :
    ∃ number : NumberText, number.toList = text ∧ number.numeral = numeral := by
  cases text with
  | nil => cases read
  | cons first rest =>
    rw [Numeral.ofDigits?] at read
    split at read
    · next isDigit =>
      induction rest using List.reverseRecOn generalizing numeral with
      | nil =>
        obtain rfl := Option.some.inj read
        exact ⟨ofDigit isDigit, rfl,
          by simp [ofDigit, NumberText.numeral, Numeral.ofDigit, numberOf]⟩
      | append_singleton front c ih =>
        rw [List.foldlM_append] at read
        obtain ⟨shorter, readFront, pushed⟩ := Option.bind_eq_some_iff.mp read
        obtain ⟨number, same, rfl⟩ := ih readFront
        obtain ⟨next, nextSame, nextNumeral⟩ : ∃ next : NumberText,
            next.toList = number.toList ++ [c] ∧ next.numeral = numeral :=
          exists_push (by simpa using pushed)
        exact ⟨next, by rw [nextSame, same]; rfl, nextNumeral⟩
    · cases read

/-- The number that the text denotes. -/
def value (text : NumberText) : ℚ :=
  numberOf (text.whole ++ text.fraction.getD []) / 10 ^ (text.fraction.getD []).length

/-- The digits of a natural number. -/
def ofNat (n : Nat) : NumberText where
  whole := digits n
  fraction := none
  filled := digits_ne_nil n
  whole_digits := isDigit_of_mem_digits n
  fraction_digits := by simp

/-- The text of digits with a point in front of the last ones of them. -/
def ofDigits (whole fraction : List Char) (filled : whole ≠ [])
    (are : ∀ c ∈ whole ++ fraction, c.isDigit = true) : NumberText where
  whole := whole
  fraction := some fraction
  filled := filled
  whole_digits := (List.forall_mem_append.mp are).1
  fraction_digits := by
    rintro _ ⟨⟩
    exact (List.forall_mem_append.mp are).2

end NumberText

/-- The exponent of ten of the leading digit. -/
def Scaled.leading (decimal : Scaled) : Int :=
  ((digits decimal.coefficient).length : Int) - 1 + decimal.exponent

/-- Moving the point to the left divides by ten. -/
theorem Scaled.value_of_neg {decimal : Scaled} {places : Nat}
    (exponent : decimal.exponent = -(places : Int)) :
    decimal.value = decimal.coefficient / 10 ^ places := by
  rw [value, exponent, zpow_neg, zpow_natCast, div_eq_mul_inv]

/-- A number that is written by position has a point with digits on both sides, if a point is
written behind whole numbers of its size. -/
theorem Layout.exists_numberText (layout : Layout) (decimal : Scaled)
    (zero : 0 ≤ decimal.exponent → layout.pointZero decimal.leading = true) :
    ∃ (number : NumberText) (fraction : List Char),
      layout.positionalText (digits decimal.coefficient) decimal.exponent decimal.leading =
          number.toList ∧
        number.fraction = some fraction ∧ fraction ≠ [] ∧ number.value = decimal.value := by
  have filled := digits_ne_nil decimal.coefficient
  have areDigits := isDigit_of_mem_digits decimal.coefficient
  have coefficient := numberOf_digits decimal.coefficient
  have leadingEq : decimal.leading =
      ((digits decimal.coefficient).length : Int) - 1 + decimal.exponent := rfl
  rw [positionalText]
  split
  · next whole =>
    obtain ⟨count, countEq⟩ := Int.eq_ofNat_of_zero_le whole
    refine ⟨.ofDigits (digits decimal.coefficient ++ List.replicate count '0') ['0']
      (by simp [filled]) ?_, ['0'], ?_, rfl, by simp, ?_⟩
    · rw [List.append_assoc, ← List.replicate_succ']
      exact List.forall_mem_append.mpr ⟨areDigits, isDigit_of_mem_zeros⟩
    · rw [if_pos (zero whole), countEq, Int.toNat_natCast]
      rfl
    · simp only [NumberText.value, NumberText.ofDigits, Option.getD_some, List.append_assoc,
        ← List.replicate_succ', numberOf_append, coefficient, numberOf_zeros, List.length_replicate,
        Scaled.value, countEq, zpow_natCast, List.length_singleton]
      push_cast
      ring
  · next negative =>
    obtain ⟨places, placesEq⟩ := Int.exists_eq_neg_ofNat (Int.le_of_not_le negative)
    rw [Scaled.value_of_neg placesEq]
    split
    · next inside =>
      have cut : (digits decimal.coefficient).length = decimal.leading.toNat + 1 + places := by
        omega
      refine ⟨.ofDigits _ _ ?_ ?_, _, rfl, rfl, ?_, ?_⟩
      · rw [← List.length_pos_iff, List.length_take]
        omega
      · rwa [List.take_append_drop]
      · rw [← List.length_pos_iff, List.length_drop]
        omega
      · simp only [NumberText.value, NumberText.ofDigits, Option.getD_some, List.take_append_drop,
          coefficient, List.length_drop]
        rw [cut, Nat.add_sub_cancel_left]
    · next outside =>
      have zeros : (-decimal.leading - 1).toNat + (digits decimal.coefficient).length = places := by
        omega
      refine ⟨.ofDigits ['0'] (List.replicate (-decimal.leading - 1).toNat '0' ++
        digits decimal.coefficient) (by simp) ?_, _, rfl, rfl, by simp [filled], ?_⟩
      · rw [← List.append_assoc, List.singleton_append, ← List.replicate_succ]
        exact List.forall_mem_append.mpr ⟨isDigit_of_mem_zeros, areDigits⟩
      · simp only [NumberText.value, NumberText.ofDigits, Option.getD_some, List.length_append,
          List.length_replicate, zeros]
        rw [← List.append_assoc, List.singleton_append, ← List.replicate_succ, numberOf_append,
          numberOf_zeros, coefficient, Nat.zero_mul, Nat.zero_add]

end Stencil.Decimal
