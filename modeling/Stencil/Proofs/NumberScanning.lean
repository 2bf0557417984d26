import Stencil.Proofs.NumberLiterals

/-! # The end of a number

The scan looks at one character to see whether a number goes on with it. Parsing all characters of
the number again after each one, by the grammar of floating point numbers with its signs, exponents
and words, comes to the same end, `Decimal.exists_takeNumber`: no text that starts with a digit is
one of the others as soon as its last character has been added. So the longest number is read, and
it always has a value, `Expression.read_longest_number`.
-/

namespace Stencil

namespace Decimal

section Parsing

/-- Whether a text starts with a minus, and the text without a sign in front of it. -/
def splitSign : List Char → Bool × List Char
  | '-' :: rest => (true, rest)
  | '+' :: rest => (false, rest)
  | text => (false, text)

/-- The number of a text of digits. -/
def natural? (text : List Char) : Option Nat :=
  if text ≠ [] ∧ text.all Char.isDigit then some (numberOf text) else none

/-- The number of digits behind a sign. -/
def signed? (text : List Char) : Option Int :=
  (natural? (splitSign text).2).map fun (n : Nat) => if (splitSign text).1 then -(n : Int) else n

/-- A signed number that fits into 64 bits. -/
def integer? (text : List Char) : Option Int64 :=
  (signed? text).bind fun n => if -2 ^ 63 ≤ n ∧ n < 2 ^ 63 then some (Int64.ofInt n) else none

/-- The exponent of ten that stands behind the other digits. -/
def exponent? : List Char → Option Int
  | [] => some 0
  | mark :: rest => if mark = 'e' ∨ mark = 'E' then signed? rest else none

/-- The digits behind a point, and what stands behind them. -/
def splitFraction : List Char → List Char × List Char
  | '.' :: rest => (rest.takeWhile Char.isDigit, rest.dropWhile Char.isDigit)
  | text => ([], text)

/-- Digits with at most one point in, before or behind them, and an exponent. -/
def decimal? (text : List Char) : Option Float :=
  let whole := text.takeWhile Char.isDigit
  let (fraction, rest) := splitFraction (text.dropWhile Char.isDigit)
  if whole = [] ∧ fraction = [] then none
  else (exponent? rest).map fun (exponent : Int) =>
    Float.ofScientific (numberOf (whole ++ fraction)) (exponent ≤ fraction.length)
      (exponent - fraction.length).natAbs

/-- The words for infinity and for what is not a number, in capital or small letters. -/
def word? (text : List Char) : Option Float :=
  let small := text.map Char.toLower
  if small = "inf".toList ∨ small = "infinity".toList then
    some (Float.ofBits 0x7FF0000000000000)
  else if small = "nan".toList then some (Float.ofBits 0x7FF8000000000000)
  else none

/-- A floating point number. -/
def float? (text : List Char) : Option Float :=
  ((word? (splitSign text).2).or (decimal? (splitSign text).2)).map fun x =>
    if (splitSign text).1 then -x else x

/-- Takes characters as long as all that has been taken is a floating point number. -/
def takeNumber (taken : List Char) : List Char → List Char × List Char
  | [] => (taken, [])
  | c :: rest =>
    if (float? (taken ++ [c])).isSome then takeNumber (taken ++ [c]) rest else (taken, c :: rest)

/-- The literal of a text: an integer if it can be parsed as one, else a floating point number. -/
def parsed (text : List Char) : Except SyntaxFault Token :=
  match integer? text, float? text with
  | some n, _ => .ok (.int n)
  | none, some x => .ok (.float x)
  | none, none => .error (.invalidLiteral (String.ofList text))

end Parsing

private theorem splitSign_of_isDigit {c : Char} (digit : c.isDigit = true) (rest : List Char) :
    splitSign (c :: rest) = (false, c :: rest) := by
  rw [splitSign.eq_def]
  split
  · next same =>
    cases same
    cases digit
  · next same =>
    cases same
    cases digit
  · rfl

private theorem digit_digitValue {c : Char} (isDigit : c.isDigit = true) :
    digit (digitValue c) = c := by
  simp only [Char.isDigit, Bool.and_eq_true, decide_eq_true_eq] at isDigit
  have lower : 48 ≤ c.toNat := isDigit.1
  rw [digit, digitValue, Nat.add_sub_cancel' lower, Char.ofNat_toNat]

private theorem word?_of_isDigit {c : Char} (isDigit : c.isDigit = true) (rest : List Char) :
    word? (c :: rest) = none := by
  have noLetter : ∀ n < 10, (digit n).toLower ≠ 'i' ∧ (digit n).toLower ≠ 'n' := by decide
  have here := noLetter (digitValue c) (digitValue_lt isDigit)
  rw [digit_digitValue isDigit] at here
  simp [word?, here]

private theorem float?_of_isDigit {c : Char} (isDigit : c.isDigit = true) (rest : List Char) :
    float? (c :: rest) = decimal? (c :: rest) := by
  simp [float?, splitSign_of_isDigit isDigit, word?_of_isDigit isDigit]

namespace NumberText

variable (number : NumberText)

private theorem exists_cons :
    ∃ first rest, number.toList = first :: rest ∧ first.isDigit = true := by
  obtain ⟨whole, fraction, filled, whole_digits, fraction_digits⟩ := number
  obtain ⟨first, rest, rfl⟩ := List.exists_cons_of_ne_nil filled
  have isDigit := whole_digits first List.mem_cons_self
  cases fraction with
  | none => exact ⟨first, rest, rfl, isDigit⟩
  | some digits => exact ⟨first, rest ++ '.' :: digits, rfl, isDigit⟩

private theorem float?_append (more : List Char) :
    float? (number.toList ++ more) = decimal? (number.toList ++ more) := by
  obtain ⟨first, rest, chars, isDigit⟩ := number.exists_cons
  rw [chars]
  exact float?_of_isDigit isDigit (rest ++ more)

/-- Behind the longest number in front of a text, only an exponent may stand. -/
theorem decimal?_append {more : List Char}
    (ends : ∀ c, more.head? = some c → number.numeral.push? c = none) :
    decimal? (number.toList ++ more) = (exponent? more).map fun (exponent : Int) =>
      Float.ofScientific number.numeral.coefficient (exponent ≤ number.numeral.places.getD 0)
        (exponent - (number.numeral.places.getD 0 : Nat)).natAbs := by
  have noDigit : ∀ c, more.head? = some c → ¬c.isDigit = true := by
    intro c head digit
    have none := ends c head
    rw [Numeral.push?, if_pos digit] at none
    cases none
  have stops : more.takeWhile Char.isDigit = [] ∧ more.dropWhile Char.isDigit = more := by
    cases more with
    | nil => exact ⟨rfl, rfl⟩
    | cons c others => simp [noDigit c rfl]
  obtain ⟨whole, fraction, filled, whole_digits, fraction_digits⟩ := number
  cases fraction with
  | none =>
    have noPoint : splitFraction more = ([], more) := by
      rw [splitFraction.eq_def]
      split
      · next rest =>
        have none := ends '.' rfl
        cases none
      · rfl
    simp only [decimal?, toList, List.takeWhile_append_of_pos whole_digits,
      List.dropWhile_append_of_pos whole_digits, stops, noPoint]
    simp [filled, numeral]
  | some digits =>
    have digitsAre := fraction_digits digits rfl
    have point : ¬Char.isDigit '.' = true := by decide
    simp only [decimal?, toList, List.append_assoc, List.cons_append,
      List.takeWhile_append_of_pos whole_digits, List.dropWhile_append_of_pos whole_digits,
      List.takeWhile_cons_of_neg point, List.dropWhile_cons_of_neg point, splitFraction,
      List.takeWhile_append_of_pos digitsAre, List.dropWhile_append_of_pos digitsAre, stops,
      List.append_nil, filled, false_and, if_false]
    rfl

/-- A number is parsed as the floating point number nearest to it. -/
theorem float?_toList : float? number.toList = some number.numeral.toFloat := by
  have alone : ∀ c, [].head? = some c → number.numeral.push? c = none := by simp
  have whole := number.float?_append []
  rw [number.decimal?_append alone, List.append_nil] at whole
  rw [whole, exponent?, Option.map_some, Numeral.toFloat]
  simp

/-- One more character makes a number if the number can grow by it. -/
theorem isSome_float?_append (c : Char) :
    (float? (number.toList ++ [c])).isSome = (number.numeral.push? c).isSome := by
  cases pushed : number.numeral.push? c with
  | some longer =>
    obtain ⟨next, chars, -⟩ := exists_push pushed
    rw [← chars, next.float?_toList]
    rfl
  | none =>
    have ends : ∀ d, [c].head? = some d → number.numeral.push? d = none := by
      rintro d ⟨⟩
      exact pushed
    -- An exponent needs digits behind its mark.
    have noExponent : exponent? [c] = none := by
      rw [exponent?]
      split <;> rfl
    rw [number.float?_append, number.decimal?_append ends, noExponent]
    rfl

private theorem integer?_toList : integer? number.toList =
    if number.fraction = none ∧ numberOf number.whole < 2 ^ 63 then
      some (Int64.ofInt (numberOf number.whole))
    else none := by
  obtain ⟨first, rest, chars, isDigit⟩ := number.exists_cons
  have unsigned : splitSign number.toList = (false, number.toList) := by
    rw [chars, splitSign_of_isDigit isDigit]
  obtain ⟨whole, fraction, filled, whole_digits, fraction_digits⟩ := number
  cases fraction with
  | none =>
    have digits : natural? whole = some (numberOf whole) :=
      if_pos ⟨filled, List.all_eq_true.mpr whole_digits⟩
    have fits : (-2 ^ 63 ≤ (numberOf whole : Int) ∧ (numberOf whole : Int) < 2 ^ 63) ↔
        none = (none : Option (List Char)) ∧ numberOf whole < 2 ^ 63 :=
      ⟨fun bounds => ⟨rfl, by omega⟩, fun ⟨_, bound⟩ => by omega⟩
    rw [integer?, signed?, unsigned, toList, digits, Option.map_some, Option.bind_some]
    exact if_congr fits rfl rfl
  | some digits =>
    have point : natural? (whole ++ '.' :: digits) = none := by
      refine if_neg fun allDigits => ?_
      have isDigit := List.all_eq_true.mp allDigits.2 '.'
        (List.mem_append_right whole List.mem_cons_self)
      exact absurd isDigit (by decide)
    rw [integer?, signed?, unsigned]
    simp [toList, point]

/-- A number is parsed as its literal. -/
theorem parsed_toList : parsed number.toList = .ok number.literal := by
  rw [parsed, number.float?_toList, number.integer?_toList, literal]
  split <;> simp_all

end NumberText

section Longest

/-- The longest number in front of a text: no other one goes on behind it. -/
structure IsLongest (number : NumberText) (behind text : List Char) : Prop where
  whole : text = number.toList ++ behind
  longest : ∀ other : NumberText, other.toList <+: text → other.toList <+: number.toList

/-- A number that starts with another one goes on with a character that this one can grow by. -/
theorem isSome_push?_of_prefix {number other : NumberText} {c : Char} {more : List Char}
    (goesOn : other.toList = number.toList ++ c :: more) :
    (number.numeral.push? c).isSome = true := by
  obtain ⟨first, rest, chars, isDigit⟩ := number.exists_cons
  have short := number.ofDigits?_toList
  have long := other.ofDigits?_toList
  rw [chars, Numeral.ofDigits?, if_pos isDigit] at short
  rw [goesOn, chars, List.cons_append, Numeral.ofDigits?, if_pos isDigit, List.foldlM_append, short,
    Option.bind_eq_bind, Option.bind_some, List.foldlM_cons] at long
  obtain ⟨next, pushed, -⟩ := Option.bind_eq_some_iff.mp long
  rw [pushed]
  rfl

private theorem isLongest_of_ends {number : NumberText} {behind : List Char}
    (ends : ∀ c, behind.head? = some c → number.numeral.push? c = none) :
    IsLongest number behind (number.toList ++ behind) := by
  refine ⟨rfl, fun other isPrefix => ?_⟩
  rcases List.prefix_or_prefix_of_prefix isPrefix (List.prefix_append _ behind) with
    inside | ⟨more, longer⟩
  · exact inside
  · cases more with
    | nil => rw [← longer, List.append_nil]
    | cons c more =>
      rw [← longer, List.prefix_append_right_inj] at isPrefix
      obtain ⟨others, rfl⟩ := isPrefix
      have goesOn := isSome_push?_of_prefix longer.symm
      rw [ends c rfl] at goesOn
      cases goesOn

/-- Parsing after every character ends the number where it can no longer grow, and the number that
has been taken is the longest one. -/
theorem exists_takeNumber (start : NumberText) (rest : List Char) :
    ∃ (number : NumberText) (behind : List Char),
      takeNumber start.toList rest = (number.toList, behind) ∧
        IsLongest number behind (start.toList ++ rest) ∧
          ∀ c, behind.head? = some c → number.numeral.push? c = none := by
  induction rest generalizing start with
  | nil =>
    have ends : ∀ c, [].head? = some c → start.numeral.push? c = none := by simp
    exact ⟨start, [], rfl, isLongest_of_ends ends, ends⟩
  | cons c rest ih =>
    rw [takeNumber, start.isSome_float?_append]
    cases pushed : start.numeral.push? c with
    | some longer =>
      obtain ⟨next, chars, -⟩ := NumberText.exists_push pushed
      have whole : start.toList ++ c :: rest = next.toList ++ rest := by simp [chars]
      rw [← chars, whole]
      exact ih next
    | none =>
      have ends : ∀ d, (c :: rest).head? = some d → start.numeral.push? d = none := by
        rintro d ⟨⟩
        exact pushed
      exact ⟨start, c :: rest, rfl, isLongest_of_ends ends, ends⟩

/-- What is taken behind a digit has a value. -/
theorem parsed_takeNumber {first : Char} (isDigit : first.isDigit = true) (rest : List Char)
    (fault : SyntaxFault) : parsed (takeNumber [first] rest).1 ≠ .error fault := by
  obtain ⟨number, behind, taken, -, -⟩ := exists_takeNumber (NumberText.ofDigit isDigit) rest
  have same : takeNumber [first] rest = (number.toList, behind) := taken
  rw [same, number.parsed_toList]
  nofun

/-- The literal of a number: an integer if it has no point and fits into 64 bits, else the nearest
floating point number. -/
inductive NumberText.IsLiteral (number : NumberText) : Token → Prop
  | int {n : Int64} (noPoint : number.fraction = none) (value : n.toInt = numberOf number.whole) :
    IsLiteral number (.int n)
  | float {x : Float} (noInteger : number.fraction = none → 2 ^ 63 ≤ numberOf number.whole)
    (nearest : Dyadic.IsNearest x.toBits.toNat number.value) : IsLiteral number (.float x)

private theorem NumberText.isLiteral_literal (number : NumberText) :
    number.IsLiteral number.literal := by
  rw [literal]
  split
  · next fits => exact .int fits.1 (Int64.toInt_ofInt_of_le (by omega) (by omega))
  · next large =>
    refine .float (fun noPoint => ?_) (number.value_numeral ▸ number.numeral.isNearest_toFloat)
    exact Nat.le_of_not_lt fun small => large ⟨noPoint, small⟩

end Longest

end Decimal

/-- The failure of a number that has no value. -/
def Error.isInvalidLiteral : Error → Bool
  | .malformed ⟨_, .invalidLiteral _⟩ => true
  | _ => false

private theorem Error.not_isInvalidLiteral_of_isRefusal {error : Error}
    (refusal : error.isRefusal = true) : error.isInvalidLiteral = false := by
  rw [isRefusal.eq_def] at refusal
  split at refusal <;> first | rfl | cases refusal

namespace Lexeme

private theorem not_isInvalidLiteral_finish {pending : Pending} {error : Error}
    (failed : finish pending = .error error) : error.isInvalidLiteral = false := by
  by_cases plain : pending.isPlain = true
  · exact Error.not_isInvalidLiteral_of_isRefusal (isRefusal_finish failed plain)
  · cases pending with
    | enclosed literal start =>
      cases failed
      rfl
    | _ => exact absurd rfl plain

private theorem not_isInvalidLiteral_scan {delimiters : Delimiters} {text : String} {error : Error}
    (failed : (scan delimiters text).failure = some error) : error.isInvalidLiteral = false := by
  rcases scanFrom_cases delimiters 0 .nothing text.toList with
    ⟨ended, last, -, same⟩ | ⟨failure, fed, same⟩
  · rw [scan, same] at failed
    split at failed
    · cases failed
    · next finished =>
      cases failed
      exact not_isInvalidLiteral_finish finished
  · rw [scan, same] at failed
    cases failed
    exact Error.not_isInvalidLiteral_of_isRefusal (isRefusal_feed fed)

end Lexeme

namespace Expression

open Decimal Delimiters Lexeme

/-- At no depth does a number have no value. -/
theorem not_isInvalidLiteral_of_read {delimiters : Delimiters} {text : String} {error : Error}
    (answer : read delimiters text = .error error) : error.isInvalidLiteral = false := by
  rw [read_eq] at answer
  rcases Result.bind_eq_error.mp answer with failed | ⟨tokens, -, failed⟩
  · obtain ⟨lexeme, member, lexemeFailed⟩ := Result.exists_of_mapM_eq_error failed
    obtain ⟨inner, inside, innerFailed⟩ := exists_of_read_error lexemeFailed
    have shorter : inner.length < text.length := (isCut_of_mem_scan member inside).1
    exact not_isInvalidLiteral_of_read innerFailed
  · split at failed
    · next scanFailed =>
      cases failed
      exact not_isInvalidLiteral_scan scanFailed
    · cases failed
termination_by text.length

/-- The characters that open literals. -/
def openingChars : List Char :=
  ['"', '\'', '(', '[']

private theorem isSome_find?_standard {c : Char} :
    (standard.find? c).isSome = true ↔ c ∈ openingChars := by
  rw [find?_standard, openingChars]
  grind

private theorem scan_number (number : NumberText) (behind : List Char) :
    scan standard (String.ofList (number.toList ++ behind)) =
      scanFrom standard number.toList.length (.number number.numeral) behind := by
  rw [scan, String.toList_ofList, scanFrom_append (feed_numberText number 0), Nat.zero_add]
  rfl

/-- No literal may start in the middle of a number. -/
theorem read_number_opening (number : NumberText) {c : Char} (opens : c ∈ openingChars)
    (others : List Char) : read standard (String.ofList (number.toList ++ c :: others)) =
      .error ((SyntaxFault.literalInsideNumber c).placed number.toList.length) := by
  have refused : offer standard number.toList.length c (.number number.numeral) =
      .error ((SyntaxFault.literalInsideNumber c).placed number.toList.length) := by
    rw [offer, step, stepNumber, if_pos (isSome_find?_standard.mpr opens), Result.error_bind]
  rw [read_eq, scan_number, scanFrom, refused]
  rfl

/-- A number that ends is the first token of what is read. -/
theorem head?_of_read_number {number : NumberText} {behind : List Char} {tokens : Expression}
    (ends : ∀ c, behind.head? = some c → number.numeral.push? c = none)
    (noOpening : ∀ c, behind.head? = some c → c ∉ openingChars)
    (answer : read standard (String.ofList (number.toList ++ behind)) = .ok tokens) :
    tokens.head? = some number.literal := by
  obtain ⟨ended, last, lexemes, fed, finished, -, lexemesRead⟩ := exists_feed_of_read answer
  have first : (ended ++ lexemes).head? = some (.token number.literal) := by
    rw [String.toList_ofList, feed_append, feed_numberText, Result.ok_bind] at fed
    obtain ⟨⟨later, final⟩, fedBehind, same⟩ := Result.bind_eq_ok.mp fed
    cases same
    cases behind with
    | nil =>
      cases fedBehind
      cases finished
      simp
    | cons c others =>
      have free : standard.find? c = none := by
        rw [← Option.not_isSome_iff_eq_none, isSome_find?_standard]
        exact noOpening c rfl
      rw [(endsAt_number free (ends c rfl) _).feed_cons, finish, Result.ok_bind] at fedBehind
      obtain ⟨⟨rest, _⟩, -, same⟩ := Result.bind_eq_ok.mp fedBehind
      cases same
      simp
  obtain ⟨rest, all⟩ := List.head?_eq_some_iff.mp first
  rw [all] at lexemesRead
  obtain ⟨token, others, tokenRead, -, rfl⟩ := Result.mapM_cons_eq_ok.mp lexemesRead
  cases tokenRead
  rfl

/-- Of a text that starts with a digit the longest number is taken, and it can be parsed: what has
been taken is never refused for not having a value. A literal that starts right behind it is
refused; otherwise the number is the first token of what is read. No text at all is refused for a
number without a value. -/
theorem read_longest_number :
    (∀ (first : Char) (rest : List Char), first.isDigit = true →
      ∃ (number : NumberText) (behind : List Char) (literal : Token),
        IsLongest number behind (first :: rest) ∧
        takeNumber [first] rest = (number.toList, behind) ∧
        parsed number.toList = .ok literal ∧ number.IsLiteral literal ∧
        (∀ c, behind.head? = some c → c ∈ openingChars →
          read standard (String.ofList (first :: rest)) =
            .error ((SyntaxFault.literalInsideNumber c).placed number.toList.length)) ∧
        ((∀ c, behind.head? = some c → c ∉ openingChars) →
          ∀ tokens, read standard (String.ofList (first :: rest)) = .ok tokens →
            tokens.head? = some literal)) ∧
    (∀ (first : Char) (rest : List Char), first.isDigit = true →
      ∀ fault, parsed (takeNumber [first] rest).1 ≠ .error fault) ∧
    ∀ text error, read standard text = .error error → error.isInvalidLiteral = false := by
  refine ⟨fun first rest isDigit => ?_, fun first rest isDigit => parsed_takeNumber isDigit rest,
    fun text error => not_isInvalidLiteral_of_read⟩
  obtain ⟨number, behind, taken, longest, ends⟩ :=
    exists_takeNumber (NumberText.ofDigit isDigit) rest
  have whole : first :: rest = number.toList ++ behind := longest.whole
  refine ⟨number, behind, number.literal, longest, taken, number.parsed_toList,
    number.isLiteral_literal, fun c head opens => ?_, fun noOpening tokens answer => ?_⟩
  · obtain ⟨others, rfl⟩ := List.head?_eq_some_iff.mp head
    rw [whole]
    exact read_number_opening number opens others
  · rw [whole] at answer
    exact head?_of_read_number ends noOpening answer

/-- The longest number may be all of the text. -/
theorem read_longest_number_whole : ∃ number : NumberText,
    number.toList = ['1', '2', '.', '5'] ∧ number.IsLiteral (.float 12.5) ∧
      read standard "12.5" = .ok [.float 12.5] := by
  obtain ⟨number, behind, literal, longest, -, -, isLiteral, -, head⟩ :=
    read_longest_number.1 '1' ['2', '.', '5'] (by decide)
  let text : NumberText := .ofDigits ['1', '2'] ['5'] (by simp) (by simp)
  have all : text.toList <+: number.toList := longest.longest text List.prefix_rfl
  obtain ⟨more, longer⟩ := all
  have whole : text.toList = number.toList ++ behind := longest.whole
  rw [← longer, List.append_assoc] at whole
  obtain ⟨rfl, rfl⟩ := List.append_eq_nil_iff.mp (List.self_eq_append_right.mp whole)
  rw [List.append_nil] at longer
  have answer : read standard "12.5" = .ok [.float 12.5] := rfl
  obtain rfl : literal = .float 12.5 := (Option.some.inj (head (by simp) _ answer)).symm
  exact ⟨number, longer.symm, isLiteral, answer⟩

end Expression

end Stencil
