import Stencil.Operator.Meaning
import Stencil.Proofs.RoundTrip
import Stencil.Value.Text

/-! # The characters of a value

A character occurs in a value when it occurs in one of its texts or keys. The text of a value has
no other characters than these and ASCII ones, `Value.not_mem_toText`, and operators bring none in,
`BinaryOperator.avoids_of_apply`.
-/

namespace Stencil

namespace Text

/-- Whether all characters of a text are ASCII. -/
def isAscii (text : List Char) : Bool :=
  text.all fun c => c.toNat < 128

private theorem isAscii_of_subset {text other : List Char} (ascii : isAscii other = true)
    (inside : text ⊆ other) : isAscii text = true :=
  List.all_eq_true.mpr fun c member => List.all_eq_true.mp ascii c (inside member)

@[simp] theorem isAscii_nil : isAscii [] = true := rfl

@[simp] theorem isAscii_append {front rest : List Char} :
    isAscii (front ++ rest) = (isAscii front && isAscii rest) :=
  List.all_append

@[simp] theorem isAscii_cons {c : Char} {rest : List Char} :
    isAscii (c :: rest) = (decide (c.toNat < 128) && isAscii rest) :=
  List.all_cons

private theorem not_mem_of_isAscii {c : Char} {text : List Char} (foreign : 128 ≤ c.toNat)
    (ascii : isAscii text = true) : c ∉ text := by
  intro member
  have small := List.all_eq_true.mp ascii c member
  simp only [decide_eq_true_eq] at small
  omega

end Text

namespace Decimal

open Text

@[simp] theorem isAscii_digits (n : Nat) : isAscii (digits n) = true := by
  refine List.all_eq_true.mpr fun c member => ?_
  have digit := isDigit_of_mem_digits n c member
  simp only [Char.isDigit, Bool.and_eq_true, decide_eq_true_eq, UInt32.le_iff_toNat_le] at digit
  have small : c.toNat ≤ 57 := digit.2
  simp only [decide_eq_true_eq]
  omega

@[simp] theorem isAscii_integerText (n : Int) : isAscii (integerText n).toList = true := by
  rw [integerText, String.toList_ofList]
  split <;> simp

@[simp] theorem isAscii_replicate_zero (count : Nat) :
    isAscii (List.replicate count '0') = true := by
  refine List.all_eq_true.mpr fun c member => ?_
  rw [(List.mem_replicate.mp member).2]
  rfl

namespace Layout

private theorem isAscii_scientificText (leading : Int) {coefficient : List Char}
    (ascii : isAscii coefficient = true) : isAscii (scientificText leading coefficient) = true := by
  unfold scientificText
  split
  · rfl
  · simpa using ascii
  · simpa using ascii

private theorem isAscii_positionalText (layout : Layout) {coefficient : List Char}
    (ascii : isAscii coefficient = true) (exponent leading : Int) :
    isAscii (layout.positionalText coefficient exponent leading) = true := by
  rw [positionalText]
  split
  · rw [isAscii_append, isAscii_append, ascii, isAscii_replicate_zero]
    split <;> rfl
  · split
    · simp [isAscii_of_subset ascii (List.take_subset _ _),
        isAscii_of_subset ascii (List.drop_subset _ _)]
    · simp [ascii]

@[simp] theorem isAscii_magnitudeText (layout : Layout) (field fraction : Nat) :
    isAscii (layout.magnitudeText field fraction) = true := by
  have decimal (number : Scaled) : isAscii (layout.decimalText number) = true := by
    rw [decimalText]
    split
    · exact isAscii_scientificText _ (isAscii_digits _)
    · exact isAscii_positionalText layout (isAscii_digits _) _ _
  rw [magnitudeText]
  split <;> exact decimal _

private theorem isAscii_floatText {layout : Layout}
    (ascii : isAscii layout.notANumber.toList = true)
    (x : Float) : isAscii (layout.floatText x).toList = true := by
  have sign (negative : Prop) [Decidable negative] :
      isAscii (if negative then "" else "-").toList = true := by
    split <;> rfl
  simp only [floatText]
  split
  · split
    · simp [sign]
    · exact ascii
  · simp [sign]

end Layout

end Decimal

namespace Value

mutual

/-- A value in whose texts and keys a character does not occur. -/
def Avoids (c : Char) : Value → Prop
  | .str text => c ∉ text.toList
  | .list items => ItemsAvoid c items
  | .map entries => EntriesAvoid c entries
  | _ => True

/-- Items in which a character does not occur. -/
def ItemsAvoid (c : Char) : List Value → Prop
  | [] => True
  | item :: rest => item.Avoids c ∧ ItemsAvoid c rest

/-- Entries in which a character does not occur. -/
def EntriesAvoid (c : Char) : List (String × Value) → Prop
  | [] => True
  | (key, value) :: rest => (c ∉ key.toList ∧ value.Avoids c) ∧ EntriesAvoid c rest

end

@[simp] theorem avoids_list {c : Char} {items : List Value} :
    (Value.list items).Avoids c ↔ ∀ item ∈ items, item.Avoids c := by
  rw [Avoids]
  induction items with
  | nil => simp [ItemsAvoid]
  | cons item rest ih => rw [ItemsAvoid, ih, List.forall_mem_cons]

@[simp] theorem avoids_map {c : Char} {entries : List (String × Value)} :
    (Value.map entries).Avoids c ↔
      ∀ entry ∈ entries, c ∉ entry.1.toList ∧ entry.2.Avoids c := by
  rw [Avoids]
  induction entries with
  | nil => simp [EntriesAvoid]
  | cons entry rest ih => rw [EntriesAvoid, ih, List.forall_mem_cons]

private theorem avoids_of_findEntry? {c : Char} {key : String} {value : Value}
    {entries : List (String × Value)} (avoids : (Value.map entries).Avoids c)
    (found : Table.findEntry? key entries = some value) : value.Avoids c := by
  induction entries with
  | nil => cases found
  | cons entry rest ih =>
    obtain ⟨⟨-, here⟩, later⟩ := avoids
    rw [Table.findEntry?] at found
    split at found
    · cases found
      exact here
    · exact ih later found

theorem avoids_of_attribute? {c : Char} {name : String} {value found : Value}
    (avoids : value.Avoids c) (isFound : value.attribute? name = some found) :
    found.Avoids c := by
  cases value with
  | map entries => exact avoids_of_findEntry? avoids isFound
  | null | bool | int | float | str | list => cases isFound

/-- A character of an element of a value occurs in the value. -/
theorem avoids_of_elements? {c : Char} {value : Value} {elements : List Value}
    (avoids : value.Avoids c) (found : value.elements? = some elements) :
    ∀ element ∈ elements, element.Avoids c := by
  cases value with
  | null | bool | int | float => cases found
  | list items =>
    cases found
    exact avoids_list.mp avoids
  | str text =>
    cases found
    intro element member
    obtain ⟨other, listed, rfl⟩ := List.mem_map.mp member
    rw [Avoids, Char.toString_eq_singleton, String.toList_singleton, List.mem_singleton]
    rintro rfl
    exact avoids listed
  | map entries =>
    cases found
    intro element member
    obtain ⟨entry, listed, rfl⟩ := List.mem_map.mp member
    exact (avoids_map.mp avoids entry listed).1

private theorem not_mem_quoted {c : Char} {text : String} (foreign : 128 ≤ c.toNat)
    (avoids : c ∉ text.toList) : c ∉ (quoted text).toList := by
  have noMark : c ∉ ['\''] := Text.not_mem_of_isAscii foreign rfl
  have noBackslash : c ∉ ['\\'] := Text.not_mem_of_isAscii foreign rfl
  have noEscape : c ∉ Text.escape (· == '\'') text.toList := by
    rw [Text.escape, List.mem_flatMap]
    rintro ⟨other, member, here⟩
    split at here
    · rcases List.mem_cons.mp here with rfl | same
      · exact noBackslash List.mem_cons_self
      · exact avoids (List.mem_singleton.mp same ▸ member)
    · exact avoids (List.mem_singleton.mp here ▸ member)
  rw [quoted, Text.quote, String.toList_ofList, List.mem_append, List.mem_cons]
  rintro ((rfl | escaped) | mark)
  · exact noMark List.mem_cons_self
  · exact noEscape escaped
  · exact noMark mark

private theorem not_mem_intercalate {c : Char} {separator : String} {texts : List String}
    (noSeparator : c ∉ separator.toList) (avoid : ∀ text ∈ texts, c ∉ text.toList) :
    c ∉ (separator.intercalate texts).toList := by
  induction texts with
  | nil => simp
  | cons text rest ih =>
    rw [List.forall_mem_cons] at avoid
    cases rest with
    | nil =>
      rw [String.intercalate_singleton]
      exact avoid.1
    | cons next others =>
      rw [String.intercalate_cons_cons, String.toList_append, String.toList_append]
      simp only [List.mem_append, not_or]
      exact ⟨⟨avoid.1, noSeparator⟩, ih avoid.2⟩

private theorem not_mem_nestedText {c : Char} (foreign : 128 ≤ c.toNat) {value : Value}
    {plain : String} (avoids : value.Avoids c) (noPlain : c ∉ plain.toList) :
    c ∉ (nestedText value plain).toList := by
  cases value with
  | str text => exact not_mem_quoted foreign avoids
  | null | bool | int | float | list | map => exact noPlain

section Foreign

variable {c : Char} (foreign : 128 ≤ c.toNat)
include foreign

mutual

/-- A character that is not ASCII occurs in the text of a value only if it occurs in the value. -/
theorem not_mem_toText : ∀ value : Value, value.Avoids c → c ∉ value.toText.toList
  | .null, _ => Text.not_mem_of_isAscii foreign rfl
  | .bool true, _ => Text.not_mem_of_isAscii foreign rfl
  | .bool false, _ => Text.not_mem_of_isAscii foreign rfl
  | .int n, _ => Text.not_mem_of_isAscii foreign (Decimal.isAscii_integerText n.toInt)
  | .float x, _ => Text.not_mem_of_isAscii foreign (Decimal.Layout.isAscii_floatText rfl x)
  | .str _, avoids => avoids
  | .list items, avoids => by
    have outer (text : String) (ascii : Text.isAscii text.toList = true) : c ∉ text.toList :=
      Text.not_mem_of_isAscii foreign ascii
    have inner := not_mem_intercalate (outer ", " rfl) (not_mem_itemTexts items avoids)
    rw [toText]
    simp only [String.toList_append, List.mem_append, not_or]
    exact ⟨⟨outer "[" rfl, inner⟩, outer "]" rfl⟩
  | .map entries, avoids => by
    have outer (text : String) (ascii : Text.isAscii text.toList = true) : c ∉ text.toList :=
      Text.not_mem_of_isAscii foreign ascii
    have inner := not_mem_intercalate (outer ", " rfl) (not_mem_entryTexts entries avoids)
    rw [toText]
    simp only [String.toList_append, List.mem_append, not_or]
    exact ⟨⟨outer "\x7b" rfl, inner⟩, outer "\x7d" rfl⟩

private theorem not_mem_itemTexts : ∀ items : List Value, ItemsAvoid c items →
    ∀ text ∈ itemTexts items, c ∉ text.toList
  | [], _ => List.forall_mem_nil _
  | value :: rest, ⟨here, later⟩ =>
    List.forall_mem_cons.mpr ⟨not_mem_nestedText foreign here (not_mem_toText value here),
      not_mem_itemTexts rest later⟩

private theorem not_mem_entryTexts : ∀ entries : List (String × Value), EntriesAvoid c entries →
    ∀ text ∈ entryTexts entries, c ∉ text.toList
  | [], _ => List.forall_mem_nil _
  | (key, value) :: rest, ⟨⟨noKey, here⟩, later⟩ => by
    have outer (text : String) (ascii : Text.isAscii text.toList = true) : c ∉ text.toList :=
      Text.not_mem_of_isAscii foreign ascii
    have nested := not_mem_nestedText foreign here (not_mem_toText value here)
    refine List.forall_mem_cons.mpr ⟨?_, not_mem_entryTexts rest later⟩
    simp only [String.toList_append, List.mem_append, not_or]
    exact ⟨⟨⟨outer "'" rfl, noKey⟩, outer "': " rfl⟩, nested⟩

end

end Foreign

end Value

namespace BinaryOperator

open Value

variable {c : Char} {left right value : Value}

private theorem avoids_of_arithmetic {operator : BinaryOperator} {exact : Int → Int → Option Int64}
    {approximate : Float → Float → Float}
    (applied : operator.arithmetic exact approximate left right = .ok value) : value.Avoids c := by
  rw [arithmetic] at applied
  split at applied
  · split at applied <;> cases applied <;> trivial
  · cases applied
    trivial
  · cases applied

private theorem avoids_of_dividing {operator : BinaryOperator} {quotient : Result Value}
    (applied : operator.dividing left right quotient = .ok value)
    (avoids : ∀ found, quotient = .ok found → found.Avoids c) : value.Avoids c := by
  rw [dividing] at applied
  split at applied
  · cases applied
  · exact avoids value applied

private theorem avoids_of_ordered {operator : BinaryOperator} {test : Ordering → Bool}
    (applied : operator.ordered test left right = .ok value) : value.Avoids c := by
  rw [ordered] at applied
  split at applied <;> cases applied
  trivial

private theorem not_mem_repeatText {text : String} (avoids : c ∉ text.toList) (count : Nat) :
    c ∉ (repeatText text count).toList := by
  rw [repeatText]
  induction count with
  | zero => simp [Nat.repeat]
  | succ count ih => simp [Nat.repeat, ih, avoids]

private theorem avoids_of_repeatStr {text : String} {count : Int64} (avoids : c ∉ text.toList)
    (applied : repeatStr text count = .ok value) : value.Avoids c := by
  obtain ⟨times, -, same⟩ := Result.bind_eq_ok.mp applied
  cases same
  exact not_mem_repeatText avoids times

private theorem avoids_of_repeatList {items : List Value} {count : Int64}
    (avoids : (Value.list items).Avoids c) (applied : repeatList items count = .ok value) :
    value.Avoids c := by
  obtain ⟨times, -, same⟩ := Result.bind_eq_ok.mp applied
  cases same
  rw [avoids_list] at avoids ⊢
  intro item member
  obtain ⟨copy, listed, inside⟩ := List.mem_flatten.mp member
  exact avoids item ((List.mem_replicate.mp listed).2 ▸ inside)

private theorem avoids_of_applyAdd (leftAvoids : left.Avoids c) (rightAvoids : right.Avoids c)
    (applied : applyAdd left right = .ok value) : value.Avoids c := by
  unfold applyAdd at applied
  split at applied
  · cases applied
    rw [Avoids] at leftAvoids rightAvoids ⊢
    simp [leftAvoids, rightAvoids]
  · cases applied
    rw [avoids_list] at leftAvoids rightAvoids ⊢
    exact List.forall_mem_append.mpr ⟨leftAvoids, rightAvoids⟩
  · exact avoids_of_arithmetic applied

private theorem avoids_of_applyMul (leftAvoids : left.Avoids c) (rightAvoids : right.Avoids c)
    (applied : applyMul left right = .ok value) : value.Avoids c := by
  unfold applyMul at applied
  split at applied
  · exact avoids_of_repeatStr leftAvoids applied
  · exact avoids_of_repeatStr rightAvoids applied
  · exact avoids_of_repeatList leftAvoids applied
  · exact avoids_of_repeatList rightAvoids applied
  · exact avoids_of_arithmetic applied

private theorem avoids_of_applyContained (applied : applyContained left right = .ok value) :
    value.Avoids c := by
  unfold applyContained at applied
  split at applied <;> cases applied <;> trivial

/-- An operator brings in no character. -/
theorem avoids_of_apply {operator : BinaryOperator} (leftAvoids : left.Avoids c)
    (rightAvoids : right.Avoids c) (applied : operator.apply left right = .ok value) :
    value.Avoids c := by
  cases operator <;> rw [apply] at applied
  case add => exact avoids_of_applyAdd leftAvoids rightAvoids applied
  case mul => exact avoids_of_applyMul leftAvoids rightAvoids applied
  case sub | pow => exact avoids_of_arithmetic applied
  case div | floorDiv | mod => exact avoids_of_dividing applied fun _ => avoids_of_arithmetic
  case greater | greaterEqual | less | lessEqual => exact avoids_of_ordered applied
  case contained => exact avoids_of_applyContained applied
  case equal | unequal | and | or =>
    cases applied
    trivial

end BinaryOperator

end Stencil
