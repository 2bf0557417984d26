import Stencil.Proofs.FloatTexts
import Stencil.Proofs.SymbolicOperators

/-! # Number literals

The text of a number is read as one literal, `Expression.spells_number`. Integers, and floating
point numbers that are written by position, are written as a number that is read as the same literal
again. A floating point number that is written with an exponent, and infinity, are not: what stands
behind the digits is read as an identifier, `Expression.read_written_number`.
-/

namespace Stencil

namespace Decimal

@[simp] theorem NumberText.value_numeral (number : NumberText) :
    number.numeral.value = number.value := by
  obtain ⟨whole, fraction, filled, whole_digits, fraction_digits⟩ := number
  cases fraction <;> simp [Numeral.value, numeral, NumberText.value]

/-- The literal that a number is read as: an integer if it has no point and fits into 64 bits. -/
def NumberText.literal (number : NumberText) : Token :=
  if number.fraction = none ∧ numberOf number.whole < 2 ^ 63 then
    .int (Int64.ofInt (numberOf number.whole))
  else .float number.numeral.toFloat

@[simp] theorem NumberText.ofNumeral_numeral (number : NumberText) :
    Lexeme.ofNumeral number.numeral = .token number.literal := by
  obtain ⟨whole, fraction, filled, whole_digits, fraction_digits⟩ := number
  cases fraction <;> simp [Lexeme.ofNumeral, numeral, literal]

private theorem NumberText.literal_eq_int {number : NumberText} {n : Int64}
    (literal : number.literal = .int n) :
    number.fraction = none ∧ n.toInt = numberOf number.whole := by
  rw [NumberText.literal] at literal
  split at literal
  · next fits =>
    obtain rfl := Token.int.inj literal
    exact ⟨fits.1, Int64.toInt_ofInt_of_le (by omega) (by omega)⟩
  · cases literal

/-- A number with a point is read as the floating point number nearest to it. -/
theorem NumberText.literal_of_isNearest {number : NumberText} {fraction : List Char} {x : Float}
    (pointed : number.fraction = some fraction)
    (nearest : Dyadic.IsNearest x.toBits.toNat number.value) : number.literal = .float x := by
  have same : number.numeral.toFloat = x := by
    rw [← Float.toBits_inj, ← UInt64.toNat_inj]
    refine Dyadic.IsNearest.unique number.numeral.isNearest_toFloat ?_
    rwa [number.value_numeral]
  rw [literal, if_neg (by simp [pointed]), same]

/-- Whether a floating point number is zero or of a size that is written without an exponent. -/
def IsPositional (x : Float) : Prop :=
  x.isFinite = true ∧ (magnitude x = 0 ∨ 1 / 10 ^ 4 ≤ magnitude x ∧ magnitude x < 10 ^ 16)

private theorem scientific_iff {x : Float} (finite : x.isFinite = true) :
    Token.floatLayout.scientific (decimal x).leading = true ↔ ¬IsPositional x := by
  have small := leading_decimal_lt_iff finite
  have large := le_leading_decimal_iff finite
  simp only [Token.floatLayout, Bool.or_eq_true, decide_eq_true_eq, small, large, IsPositional,
    finite, true_and]
  grind

section Unsigned

variable {x : Float} (unsigned : x.toBits.toNat ≤ Dyadic.infinityBits)
include unsigned

private theorem magnitudeBits_of_unsigned : magnitudeBits x = x.toBits.toNat := by
  rw [Dyadic.infinityBits] at unsigned
  rw [magnitudeBits]
  omega

private theorem toList_floatText_of_unsigned (finite : x.isFinite = true) :
    (Token.floatLayout.floatText x).toList = Token.floatLayout.decimalText (decimal x) := by
  have sign : signText x = [] := by
    rw [Dyadic.infinityBits] at unsigned
    rw [signText, if_pos (by omega)]
  rw [Layout.toList_floatText finite, sign, List.nil_append]

/-- A number that is written by position is written as a text of which it is the literal. -/
theorem exists_positional (positional : IsPositional x) : ∃ number : NumberText,
    (Token.floatLayout.floatText x).toList = number.toList ∧ number.literal = .float x := by
  have finite := positional.1
  obtain ⟨number, fraction, written, pointed, -, same⟩ :=
    Token.floatLayout.exists_numberText (decimal x) fun _ => rfl
  refine ⟨number, ?_, NumberText.literal_of_isNearest pointed ?_⟩
  · have noExponent : ¬Token.floatLayout.scientific (decimal x).leading = true := by
      rwa [scientific_iff finite, not_not]
    rw [toList_floatText_of_unsigned unsigned finite, ← written]
    exact if_neg noExponent
  · rw [same, ← magnitudeBits_of_unsigned unsigned]
    exact isNearest_decimal finite

/-- Any other finite number is written as a number with an exponent behind it. -/
theorem exists_scientific (finite : x.isFinite = true) (notPositional : ¬IsPositional x) :
    ∃ (number : NumberText) (exponent : Int), (Token.floatLayout.floatText x).toList =
      number.toList ++ 'e' :: (integerText exponent).toList := by
  have areDigits := isDigit_of_mem_digits (decimal x).coefficient
  have filled := digits_ne_nil (decimal x).coefficient
  have written : (Token.floatLayout.floatText x).toList =
      Layout.scientificText (decimal x).leading (digits (decimal x).coefficient) := by
    rw [toList_floatText_of_unsigned unsigned finite]
    exact if_pos ((scientific_iff finite).mpr notPositional)
  match chars : digits (decimal x).coefficient with
  | [] => exact absurd chars filled
  | [first] =>
    rw [chars] at written areDigits
    exact ⟨⟨[first], none, by simp, areDigits, by simp⟩, (decimal x).leading, written⟩
  | first :: second :: rest =>
    rw [chars] at written areDigits
    refine ⟨.ofDigits [first] (second :: rest) (by simp) areDigits, (decimal x).leading, ?_⟩
    rw [written]
    simp [Layout.scientificText, NumberText.toList, NumberText.ofDigits]

/-- A number that is not finite is infinity. -/
theorem eq_infinity (infinite : ¬x.isFinite = true) : x = Float.ofBits 0x7FF0000000000000 := by
  rw [isFinite_iff, not_not] at infinite
  rw [Dyadic.infinityBits] at unsigned
  have bits : x.toBits.toNat = (0x7FF0000000000000 : UInt64).toNat := by
    change x.toBits.toNat = 0x7FF0000000000000
    omega
  have same : (Float.ofBits 0x7FF0000000000000).toBits = 0x7FF0000000000000 := by decide
  rw [← Float.toBits_inj, same]
  exact UInt64.toNat_inj.mp bits

end Unsigned

end Decimal

namespace Expression

open Decimal Delimiters Lexeme

section Numbers

private theorem find?_standard_of_mem_number {number : NumberText} :
    ∀ c ∈ number.toList, standard.find? c = none := by
  have ofDigit {c : Char} (isDigit : c.isDigit = true) : standard.find? c = none :=
    find?_standard_of_not_isPunctuation (not_isPunctuation_of_isDigit isDigit)
  obtain ⟨whole, fraction, filled, whole_digits, fraction_digits⟩ := number
  intro c member
  cases fraction with
  | none => exact ofDigit (whole_digits c member)
  | some digits =>
    rcases List.mem_append.mp member with member | member
    · exact ofDigit (whole_digits c member)
    · rcases List.mem_cons.mp member with rfl | member
      · decide
      · exact ofDigit (fraction_digits digits rfl c member)

theorem feed_numberText (number : NumberText) (position : Nat) :
    feed standard position .nothing number.toList = .ok ([], .number number.numeral) :=
  feed_numeral find?_standard_of_mem_number number.ofDigits?_toList position

/-- The text of a number spells its literal. -/
theorem spells_number (number : NumberText) : Spells number.toList [number.literal] := by
  refine spells_of_finish fun position => ⟨_, feed_numberText number position, ?_⟩
  rw [finish, number.ofNumeral_numeral]

/-- A number ends where a name begins. -/
theorem spells_number_name (number : NumberText) {name : String} {tokens : Expression}
    (isName : Identifier.isName name = true) (spelled : Spells name.toList tokens) :
    Spells (number.toList ++ name.toList) (number.literal :: tokens) := by
  refine (spells_number number).append spelled ?_
  intro position ended last lexemes fed _ c head
  rw [feed_numberText] at fed
  cases fed
  obtain ⟨first, rest, chars, starts, -⟩ := Identifier.isName_iff.mp isName
  rw [chars] at head
  cases head
  have noDigit : ¬c.isDigit = true := by
    rw [Identifier.not_isDigit_of_first starts]
    decide
  have noPoint : c ≠ '.' := by
    rintro rfl
    exact absurd starts (by decide)
  have free : standard.find? c = none :=
    find?_standard_of_not_isPunctuation (by simp [isPunctuation, isNameChar_of_first starts])
  refine endsAt_number free ?_ _
  rw [Numeral.push?, if_neg noDigit, if_neg fun point => noPoint point.1]

end Numbers

section Exponent

variable {rest : List Char} (areDigits : ∀ c ∈ rest, c.isDigit = true)
include areDigits

private theorem isName_exponent : Identifier.isName (String.ofList ('e' :: rest)) = true :=
  Identifier.isName_iff.mpr ⟨'e', rest, String.toList_ofList, by decide,
    fun c member => isNameChar_of_isDigit (areDigits c member)⟩

private theorem spells_exponent : Spells (String.ofList ('e' :: rest)).toList
    [.identifier ⟨String.ofList ('e' :: rest), []⟩] := by
  have noOperator : Operator.ofSymbol? (String.ofList ('e' :: rest)) = none := by
    apply Operator.ofSymbol?_of_not_beginsSymbol
    rw [Bool.eq_false_iff]
    intro begins
    have whole : String.ofList ('e' :: rest) = "e" ++ String.ofList rest := by
      rw [← String.toList_inj]
      simp
    rw [whole] at begins
    exact absurd (Operator.beginsSymbol_of_append begins) (by decide)
  have single : (⟨String.ofList ('e' :: rest), []⟩ : Identifier).toText =
      String.ofList ('e' :: rest) := String.intercalate_singleton
  have readable : Identifier.IsReadable ⟨String.ofList ('e' :: rest), []⟩ :=
    ⟨List.forall_mem_singleton.mpr (isName_exponent areDigits), noOperator⟩
  rw [← single]
  exact spells_identifier readable

/-- A number in front of an exponent is read as a literal, and the exponent as a name. -/
theorem spells_number_exponent (number : NumberText) :
    Spells (number.toList ++ 'e' :: rest)
      [number.literal, .identifier ⟨String.ofList ('e' :: rest), []⟩] := by
  have spelled := spells_number_name number (isName_exponent areDigits) (spells_exponent areDigits)
  rwa [String.toList_ofList] at spelled

end Exponent

/-- Behind the name of an exponent that is negative its sign is read as an operator. -/
theorem read_scientific (number : NumberText) (exponent : Int) : ∃ tokens path,
    read standard (String.ofList (number.toList ++ 'e' :: (integerText exponent).toList)) =
      .ok tokens ∧ .identifier path ∈ tokens := by
  rw [integerText, String.toList_ofList]
  split
  · have front : read standard (String.ofList (number.toList ++ ['e'])) =
        .ok [number.literal, .identifier ⟨"e", []⟩] := by
      apply read_of_spells
      rw [String.toList_ofList]
      exact spells_number_exponent (List.forall_mem_nil _) number
    have digitsRead : read standard (String.ofList (digits exponent.natAbs)) =
        .ok [(NumberText.ofNat exponent.natAbs).literal] := by
      apply read_of_spells
      rw [String.toList_ofList]
      exact spells_number (.ofNat exponent.natAbs)
    have notSymbolic (number : NumberText) : number.literal.isSymbolic = false := by
      rw [NumberText.literal]
      split <;> rfl
    have minus : (Operator.binary .sub).isSymbolic = true := by decide
    have behind := spells_symbol_append minus digitsRead
      (.inr fun token head => by cases head; exact notSymbolic _)
    have spelled := (spells_of_read front).append behind fun _ _ _ _ fed _ c head => by
      cases head
      exact endsAt_symbol front (.inr fun token last => by cases last; rfl) fed (by decide) _
    have whole : (String.ofList (number.toList ++ 'e' :: '-' :: digits exponent.natAbs)).toList =
        (String.ofList (number.toList ++ ['e'])).toList ++
          ((Operator.binary .sub).symbol.toList ++
            (String.ofList (digits exponent.natAbs)).toList) := by
      simp [Operator.symbol, BinaryOperator.symbol]
    rw [← whole] at spelled
    exact ⟨_, ⟨"e", []⟩, read_of_spells spelled,
      List.mem_append_left _ (List.mem_cons_of_mem _ List.mem_cons_self)⟩
  · have spelled := spells_number_exponent (isDigit_of_mem_digits exponent.natAbs) number
    rw [← String.toList_ofList (l := number.toList ++ _)] at spelled
    exact ⟨_, _, read_of_spells spelled, List.mem_cons_of_mem _ List.mem_cons_self⟩

section Written

@[simp] theorem toText_single (token : Token) : toText [token] = token.toText :=
  String.intercalate_singleton

/-- The text of a number is read as one literal. What is written for it is read as the same literal,
unless it is a floating point number that is not written by position: then an identifier is read
behind, or in place of, its digits. -/
theorem read_written_number (number : NumberText) :
    read standard (String.ofList number.toList) = .ok [number.literal] ∧
      ((∀ x, number.literal = .float x → IsPositional x) →
        read standard (toText [number.literal]) = .ok [number.literal]) ∧
      ∀ x, number.literal = .float x → ¬IsPositional x → ∃ tokens path,
        read standard (toText [number.literal]) = .ok tokens ∧ .identifier path ∈ tokens := by
  have unsigned {x : Float} (isFloat : number.literal = .float x) :
      x.toBits.toNat ≤ Dyadic.infinityBits := by
    rw [NumberText.literal] at isFloat
    split at isFloat <;> cases isFloat
    exact number.numeral.isNearest_toFloat.1
  refine ⟨read_of_spells ?_, fun positional => ?_, fun x isFloat notPositional => ?_⟩
  · rw [String.toList_ofList]
    exact spells_number number
  · rw [toText_single]
    cases literal : number.literal with
    | int n =>
      have notNegative : 0 ≤ n.toInt := by
        rw [(NumberText.literal_eq_int literal).2]
        exact Int.natCast_nonneg _
      exact read_of_spells (spells_int notNegative)
    | float x =>
      obtain ⟨written, same, isLiteral⟩ :=
        exists_positional (unsigned literal) (positional x literal)
      apply read_of_spells
      rw [Token.toText, same, ← isLiteral]
      exact spells_number written
    | _ =>
      rw [NumberText.literal] at literal
      split at literal <;> cases literal
  · rw [isFloat, toText_single, Token.toText]
    by_cases finite : x.isFinite = true
    · obtain ⟨mantissa, exponent, same⟩ := exists_scientific (unsigned isFloat) finite notPositional
      rw [← String.ofList_toList (s := Token.floatLayout.floatText x), same]
      exact read_scientific mantissa exponent
    · have text : Token.floatLayout.floatText (Float.ofBits 0x7FF0000000000000) = "inf" := by
        decide +kernel
      have inf : read standard "inf" = .ok [.identifier ⟨"inf", []⟩] := rfl
      rw [eq_infinity (unsigned isFloat) finite, text]
      exact ⟨_, _, inf, List.mem_cons_self⟩

theorem read_written_number_both :
    let quarter := NumberText.ofDigits ['0'] ['2', '5'] (by simp) (by simp)
    let large := NumberText.ofNat 10000000000000000000
    (∃ x, quarter.literal = .float x ∧ IsPositional x ∧
      read standard (toText [.float x]) = .ok [.float x]) ∧
    ∃ x, large.literal = .float x ∧ ¬IsPositional x ∧ ∃ tokens path,
      read standard (toText [.float x]) = .ok tokens ∧ .identifier path ∈ tokens := by
  intro quarter large
  have quarterLiteral : quarter.literal = .float quarter.numeral.toFloat := rfl
  have largeLiteral : large.literal = .float large.numeral.toFloat := by
    have : ¬numberOf large.whole < 2 ^ 63 := by decide +kernel
    rw [NumberText.literal, if_neg fun fits => this fits.2]
  have quarterBits : magnitudeBits quarter.numeral.toFloat = 0x3FD0000000000000 := by
    decide +kernel
  have largeBits : magnitudeBits large.numeral.toFloat = 0x43E158E460913D00 := by
    decide +kernel
  have positional : IsPositional quarter.numeral.toFloat := by
    refine ⟨by decide +kernel, .inr ?_⟩
    rw [magnitude, quarterBits]
    norm_num [Dyadic.ofBits, Dyadic.ofFields, Dyadic.value]
  have notPositional : ¬IsPositional large.numeral.toFloat := by
    rw [IsPositional, magnitude, largeBits]
    norm_num [Dyadic.ofBits, Dyadic.ofFields, Dyadic.value]
  refine ⟨⟨_, quarterLiteral, positional, ?_⟩, _, largeLiteral, notPositional, ?_⟩
  · rw [← quarterLiteral]
    refine (read_written_number quarter).2.1 fun x isFloat => ?_
    rw [quarterLiteral] at isFloat
    cases isFloat
    exact positional
  · rw [← largeLiteral]
    exact (read_written_number large).2.2 _ largeLiteral notPositional

/-- Numbers from `10 ^ 16` on are written with an exponent. -/
theorem not_read_written_number :
    ¬∀ number : NumberText, read standard (toText [number.literal]) = .ok [number.literal] := by
  intro same
  have answer := same (.ofNat 10000000000000000000)
  have text : toText [(NumberText.ofNat 10000000000000000000).literal] =
      String.ofList ((NumberText.ofNat 1).toList ++ ['e', '1', '9']) := by
    decide +kernel
  have exponent : ∀ c ∈ ['1', '9'], c.isDigit = true := by simp
  have split := spells_number_exponent exponent (.ofNat 1)
  rw [← String.toList_ofList (l := (NumberText.ofNat 1).toList ++ _)] at split
  rw [text, read_of_spells split] at answer
  exact List.cons_ne_nil _ _ (List.cons.inj (Except.ok.inj answer)).2

end Written

end Expression

end Stencil
