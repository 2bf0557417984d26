import Stencil.Proofs.FloatTexts
import Stencil.Proofs.LexemePlaces
import Stencil.Value.Text

/-! # The fractional part of a written floating point number

A finite floating point number is written with a point and at least one digit behind it as long as
its absolute value is below `10 ^ 16`, and from there on like an integer. Wherever a value holds a
floating point number, that text stands in the text of the value, `Value.text_of_occurs`.
-/

namespace Stencil

open Decimal

namespace Value

section Occurrences

/-- Whether a value occurs in another one: it is that value, or it occurs in an item of a list or
under a key of a map. -/
inductive Occurs (part : Value) : Value → Prop
  | here : Occurs part part
  | item {items : List Value} {value : Value} (member : value ∈ items)
    (inside : Occurs part value) : Occurs part (.list items)
  | entry {entries : List (String × Value)} {key : String} {value : Value}
    (member : (key, value) ∈ entries) (inside : Occurs part value) : Occurs part (.map entries)

private theorem mem_itemTexts {items : List Value} {value : Value} (member : value ∈ items) :
    nestedText value value.toText ∈ itemTexts items := by
  induction items with
  | nil => cases member
  | cons first rest ih =>
    rw [itemTexts]
    rcases List.mem_cons.mp member with rfl | member
    · exact List.mem_cons_self
    · exact List.mem_cons_of_mem _ (ih member)

private theorem mem_entryTexts {entries : List (String × Value)} {key : String} {value : Value}
    (member : (key, value) ∈ entries) :
    "'" ++ key ++ "': " ++ nestedText value value.toText ∈ entryTexts entries := by
  induction entries with
  | nil => cases member
  | cons first rest ih =>
    rw [entryTexts]
    rcases List.mem_cons.mp member with rfl | member
    · exact List.mem_cons_self
    · exact List.mem_cons_of_mem _ (ih member)

/-- Only texts are written in another way inside a list or a map. -/
private theorem nestedText_of_occurs {part value : Value} (noText : part.text? = none)
    (occurs : Occurs part value) (plain : String) : nestedText value plain = plain := by
  cases value with
  | str text =>
    cases occurs
    cases noText
  | _ => rfl

/-- What occurs in a value and is no text stands in the text of the value. -/
theorem exists_append_of_occurs {part value : Value} (noText : part.text? = none)
    (occurs : Occurs part value) :
    ∃ before after, value.toText.toList = before ++ part.toText.toList ++ after := by
  induction occurs with
  | here => exact ⟨[], [], by simp⟩
  | @item items value member inside ih =>
    obtain ⟨before, after, same⟩ := ih
    have listed := mem_itemTexts member
    rw [nestedText_of_occurs noText inside] at listed
    obtain ⟨front, rest, whole⟩ : ∃ front rest, (", ".intercalate (itemTexts items)).toList =
        front ++ value.toText.toList ++ rest := Lexeme.exists_append_of_mem_intercalate listed
    refine ⟨'[' :: front ++ before, after ++ rest ++ [']'], ?_⟩
    simp [toText, whole, same]
  | @entry entries key value member inside ih =>
    obtain ⟨before, after, same⟩ := ih
    have listed := mem_entryTexts member
    rw [nestedText_of_occurs noText inside] at listed
    obtain ⟨front, rest, whole⟩ : ∃ front rest, (", ".intercalate (entryTexts entries)).toList =
        front ++ ("'" ++ key ++ "': " ++ value.toText).toList ++ rest :=
      Lexeme.exists_append_of_mem_intercalate listed
    refine ⟨'\x7b' :: front ++ "'".toList ++ key.toList ++ "': ".toList ++ before,
      after ++ rest ++ ['\x7d'], ?_⟩
    simp [toText, whole, same]

end Occurrences

section Number

variable {x : Float} (finite : x.isFinite = true)
include finite

/-- The text of a number is its sign and a number written by position. -/
theorem toList_toText_float : (Value.float x).toText.toList = signText x ++
    floatLayout.positionalText (digits (decimal x).coefficient) (decimal x).exponent
      (decimal x).leading := by
  rw [toText, Layout.toList_floatText finite]
  rfl

private theorem exists_fraction (small : magnitude x < 10 ^ 16) :
    ∃ (number : NumberText) (fraction : List Char),
      (Value.float x).toText.toList = signText x ++ number.toList ∧
        number.fraction = some fraction ∧ fraction ≠ [] ∧
          Dyadic.IsNearest (magnitudeBits x) number.value := by
  have zero : 0 ≤ (decimal x).exponent → floatLayout.pointZero (decimal x).leading = true := by
    intro _
    exact decide_eq_true (not_le.mp fun large =>
      small.not_ge ((le_leading_decimal_iff finite).mp large))
  obtain ⟨number, fraction, written, pointed, filled, same⟩ :=
    floatLayout.exists_numberText (decimal x) zero
  refine ⟨number, fraction, ?_, pointed, filled, same ▸ isNearest_decimal finite⟩
  rw [toList_toText_float finite, written]

/-- A number of that size has no fraction. -/
private theorem integral_of_large (large : 10 ^ 16 ≤ magnitude x) :
    0 ≤ (Dyadic.ofBits (magnitudeBits x)).exponent := by
  by_contra negative
  have short : (Dyadic.ofBits (magnitudeBits x)).significand < 2 ^ 53 := by
    have length := (Dyadic.fields_of_finite (magnitudeBits_lt finite)).1
    exact Nat.lt_log2_self.trans_le (Nat.pow_le_pow_right (by decide) (by omega))
  have unit : (2 : ℚ) ^ (Dyadic.ofBits (magnitudeBits x)).exponent ≤ 1 :=
    zpow_le_one_of_nonpos₀ (by norm_num) (by omega)
  have less : magnitude x ≤ (Dyadic.ofBits (magnitudeBits x)).significand :=
    mul_le_of_le_one_right (by positivity) unit
  have bound : ((Dyadic.ofBits (magnitudeBits x)).significand : ℚ) < 2 ^ 53 := by
    exact_mod_cast short
  linarith

private theorem exists_whole (large : 10 ^ 16 ≤ magnitude x) :
    ∃ n : Nat, (Value.float x).toText.toList = signText x ++ digits n ∧ 0 < n ∧
      Dyadic.IsNearest (magnitudeBits x) n := by
  have filled : magnitudeBits x ≠ 0 := by
    intro zero
    rw [magnitude_eq_zero_iff.mpr zero] at large
    norm_num at large
  have isShortest : decimal x = (Dyadic.ofBits (magnitudeBits x)).shortest := if_neg filled
  have coefficient : 0 < (decimal x).coefficient := by
    rw [isShortest]
    exact Dyadic.coefficient_shortest_pos (magnitudeBits_lt finite) (Nat.pos_of_ne_zero filled)
  have exponent : 0 ≤ (decimal x).exponent := by
    rw [isShortest]
    exact Dyadic.exponent_shortest_ofBits_nonneg (magnitudeBits_lt finite)
      (Nat.pos_of_ne_zero filled) (integral_of_large finite large)
  obtain ⟨count, countEq⟩ := Int.eq_ofNat_of_zero_le exponent
  have noZero : ¬floatLayout.pointZero (decimal x).leading = true := by
    simpa [floatLayout] using (le_leading_decimal_iff finite).mpr large
  refine ⟨(decimal x).coefficient * 10 ^ count, ?_, Nat.mul_pos coefficient (by positivity), ?_⟩
  · rw [toList_toText_float finite, digits_mul_pow coefficient, Layout.positionalText,
      if_pos exponent, if_neg noZero, List.append_nil, countEq, Int.toNat_natCast]
  · have nearest := isNearest_decimal finite
    rw [Scaled.value, countEq, zpow_natCast] at nearest
    exact_mod_cast nearest

/-- A sign and the digits of a number are the text of an integer. -/
private theorem exists_integer (large : 10 ^ 16 ≤ magnitude x) :
    ∃ n : Int, (Value.float x).toText = integerText n ∧
      Dyadic.IsNearest (magnitudeBits x) n.natAbs := by
  obtain ⟨n, written, positive, nearest⟩ := exists_whole finite large
  rw [signText] at written
  split at written
  · refine ⟨n, ?_, by simpa using nearest⟩
    rw [integerText, if_neg (by omega), ← String.ofList_toList (s := (Value.float x).toText),
      written]
    rfl
  · refine ⟨-n, ?_, by simpa using nearest⟩
    rw [integerText, if_pos (by omega), ← String.ofList_toList (s := (Value.float x).toText),
      written]
    simp

end Number

/-- A finite floating point number that occurs in a value stands in its text, with a point and
digits behind it below `10 ^ 16`, and as an integer from there on. Either way the text denotes a
number to which the floating point number is the nearest one. -/
theorem text_of_occurs {x : Float} {value : Value} (finite : x.isFinite = true)
    (occurs : Occurs (.float x) value) :
    (∃ before after, value.toText.toList = before ++ (Value.float x).toText.toList ++ after) ∧
      (magnitude x < 10 ^ 16 → ∃ (number : NumberText) (fraction : List Char),
        (Value.float x).toText.toList = signText x ++ number.toList ∧
          number.fraction = some fraction ∧ fraction ≠ [] ∧
            Dyadic.IsNearest (magnitudeBits x) number.value) ∧
      (10 ^ 16 ≤ magnitude x → ∃ n : Int, (Value.float x).toText = integerText n ∧
        Dyadic.IsNearest (magnitudeBits x) n.natAbs) :=
  ⟨exists_append_of_occurs rfl occurs, exists_fraction finite, exists_integer finite⟩

theorem text_of_occurs_row :
    let half := Float.ofBits 0xBFE0000000000000
    let large := Float.ofBits 0x4341C37937E08000
    let row : Value := .map [("rates", .list [.float half, .float large])]
    (Occurs (.float half) row ∧ magnitude half < 10 ^ 16 ∧
      ∃ (number : NumberText) (fraction : List Char),
        (Value.float half).toText.toList = '-' :: number.toList ∧
          number.fraction = some fraction ∧ fraction ≠ []) ∧
    (Occurs (.float large) row ∧ 10 ^ 16 ≤ magnitude large ∧
      ∃ n : Int, (Value.float large).toText = integerText n) := by
  intro half large row
  have inRow : Occurs (.float half) row ∧ Occurs (.float large) row := by
    constructor
    · exact .entry List.mem_cons_self (.item List.mem_cons_self .here)
    · exact .entry List.mem_cons_self (.item (List.mem_cons_of_mem _ List.mem_cons_self) .here)
  have small : magnitude half < 10 ^ 16 := by
    have bits : magnitudeBits half = 0x3FE0000000000000 := by decide
    rw [magnitude, bits]
    norm_num [Dyadic.ofBits, Dyadic.ofFields, Dyadic.value]
  have atSwitch : 10 ^ 16 ≤ magnitude large := by
    have bits : magnitudeBits large = 0x4341C37937E08000 := by decide
    rw [magnitude, bits]
    norm_num [Dyadic.ofBits, Dyadic.ofFields, Dyadic.value]
  obtain ⟨-, pointed, -⟩ := text_of_occurs (x := half) (by decide) inRow.1
  obtain ⟨number, fraction, written, split, filled, -⟩ := pointed small
  obtain ⟨-, -, whole⟩ := text_of_occurs (x := large) (by decide) inRow.2
  obtain ⟨n, same, -⟩ := whole atSwitch
  have sign : signText half = ['-'] := by decide
  rw [sign] at written
  exact ⟨⟨inRow.1, small, number, fraction, written, split, filled⟩, inRow.2, atSwitch, n, same⟩

/-- The least number that is written like an integer is `10 ^ 16`. -/
theorem not_point_of_finite : ¬∀ x : Float, x.isFinite = true → ∃ before digit after,
    (Value.float x).toText.toList = before ++ '.' :: digit :: after ∧ digit.isDigit = true := by
  intro pointed
  obtain ⟨before, digit, after, written, -⟩ :=
    pointed (Float.ofBits 0x4341C37937E08000) (by decide)
  have noPoint : '.' ∉ (Value.float (Float.ofBits 0x4341C37937E08000)).toText.toList := by
    decide +kernel
  rw [written] at noPoint
  exact noPoint (List.mem_append_right before List.mem_cons_self)

end Value

end Stencil
