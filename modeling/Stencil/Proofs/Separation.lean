import Stencil.Proofs.RoundTrip

/-! # Tokens side by side

Where a text stands does not matter to its lexemes, but only to the positions of its failures,
`alike_scanFrom`. A blank character finishes the piece in front of it as the end of the text does,
so that what stands behind it is read as if it stood alone: `Expression.read_around_blank`.
-/

namespace Stencil

namespace Lexeme

variable {delimiters : Delimiters}

/-- A piece without its place. -/
def Pending.unplaced : Pending → Pending
  | .nothing => .nothing
  | .operator text _ => .operator text 0
  | .word text _ => .word text 0
  | .number numeral => .number numeral
  | .enclosed literal _ => .enclosed literal 0

/-- A step without the place of the piece that it leaves. -/
def Step.unplaced (taken : Step) : Step :=
  { taken with pending := taken.pending.unplaced }

section Alike

variable (position place : Nat) (c : Char)

private theorem alike_begin : Result.Alike Pending.unplaced (begin delimiters position c)
    (begin delimiters place c) := by
  rw [begin, begin]
  split
  · rfl
  · repeat' split
    all_goals rfl

private theorem alike_endWith (lexeme : Lexeme) :
    Result.Alike Step.unplaced (endWith delimiters position c lexeme)
      (endWith delimiters place c lexeme) := by
  refine (alike_begin position place c).bind fun next other same => .ok ?_
  simp only [Step.unplaced, same]

private theorem alike_ofWord (text : String) (start other : Nat) :
    Result.Alike id (ofWord text start) (ofWord text other) := by
  rw [ofWord, ofWord]
  split <;> rfl

private theorem alike_stepOperator (text : String) (start other : Nat) :
    Result.Alike Step.unplaced (stepOperator delimiters position c text start)
      (stepOperator delimiters place c text other) := by
  rw [stepOperator, stepOperator]
  split
  · rfl
  · cases Operator.ofSymbol? text with
    | some operator =>
      dsimp only
      split
      · rfl
      · exact alike_endWith position place c _
    | none =>
      dsimp only
      repeat' split
      all_goals rfl

private theorem alike_stepWord (text : String) (start other : Nat) :
    Result.Alike Step.unplaced (stepWord delimiters position c text start)
      (stepWord delimiters place c text other) := by
  rw [stepWord, stepWord]
  split
  · rfl
  · split
    · rfl
    · refine (alike_ofWord text start other).bind fun lexeme again same => ?_
      obtain rfl : lexeme = again := same
      exact alike_endWith position place c lexeme

private theorem alike_stepNumber (numeral : Decimal.Numeral) :
    Result.Alike Step.unplaced (stepNumber delimiters position c numeral)
      (stepNumber delimiters place c numeral) := by
  rw [stepNumber, stepNumber]
  split
  · rfl
  · split <;> rfl

private theorem alike_stepEnclosed (literal : Enclosed) (start other : Nat) :
    Result.Alike Step.unplaced (stepEnclosed delimiters position c literal start)
      (stepEnclosed delimiters place c literal other) := by
  rw [stepEnclosed, stepEnclosed]
  split <;> rfl

variable {pending other : Pending} (same : pending.unplaced = other.unplaced)
include same

private theorem alike_step : Result.Alike Step.unplaced (step delimiters position c pending)
    (step delimiters place c other) := by
  cases pending <;> cases other <;> cases same
  case nothing =>
    refine (alike_begin position place c).bind fun next later same => .ok ?_
    simp only [Step.unplaced, same]
  case operator => exact alike_stepOperator position place c _ _ _
  case word => exact alike_stepWord position place c _ _ _
  case number => exact alike_stepNumber position place c _
  case enclosed => exact alike_stepEnclosed position place c _ _ _

private theorem alike_offer : Result.Alike (Prod.map id Pending.unplaced)
    (offer delimiters position c pending) (offer delimiters place c other) := by
  refine (alike_step position place c same).bind fun first again alike => ?_
  obtain ⟨ended, next, consumed⟩ := first
  obtain ⟨endedAgain, nextAgain, consumedAgain⟩ := again
  obtain ⟨rfl, sameNext, rfl⟩ := Step.mk.inj alike
  cases consumed with
  | true => exact .ok (congrArg (Prod.mk ended) sameNext)
  | false =>
    refine (alike_step position place c sameNext).bind fun second later alike => .ok ?_
    obtain ⟨sameEnded, samePending, -⟩ := Step.mk.inj alike
    simp only [Prod.map, sameEnded, samePending]

private theorem alike_finish : Result.Alike id (finish pending) (finish other) := by
  have asWord (text : String) (start start' : Nat) :
      Result.Alike id (do return [← ofWord text start]) (do return [← ofWord text start']) :=
    (alike_ofWord text start start').bind fun lexeme again same => .ok (congrArg ([·]) same)
  cases pending <;> cases other <;> cases same
  case nothing => rfl
  case operator text start start' =>
    rw [finish, finish]
    cases Operator.ofSymbol? text with
    | some operator => rfl
    | none =>
      dsimp only
      split
      · exact asWord text start start'
      · rfl
  case word text start start' => exact asWord text start start'
  case number => rfl
  case enclosed => rfl

end Alike

/-- Two scans with the same lexemes of which both or none fail. -/
structure Scan.Alike (first second : Scan) : Prop where
  lexemes : first.lexemes = second.lexemes
  failed : first.failure.isSome = second.failure.isSome

/-- Where a text stands only matters to the failure of its scan. -/
theorem alike_scanFrom (position place : Nat) {pending other : Pending}
    (same : pending.unplaced = other.unplaced) (text : List Char) :
    (scanFrom delimiters position pending text).Alike (scanFrom delimiters place other text) := by
  induction text generalizing position place pending other with
  | nil =>
    have alike := alike_finish same
    rw [scanFrom, scanFrom]
    cases first : finish pending <;> cases second : finish other <;> rw [first, second] at alike
    · exact ⟨rfl, rfl⟩
    · cases alike
    · cases alike
    · exact ⟨Option.some.inj alike, rfl⟩
  | cons c rest ih =>
    have alike : Result.Alike _ (offer delimiters position c pending)
        (offer delimiters place c other) := alike_offer position place c same
    rw [scanFrom, scanFrom]
    cases first : offer delimiters position c pending with
    | error e =>
      cases second : offer delimiters place c other with
      | error e' => exact ⟨rfl, rfl⟩
      | ok answer =>
        rw [first, second] at alike
        cases alike
    | ok answer =>
      obtain ⟨ended, next⟩ := answer
      cases second : offer delimiters place c other with
      | error e =>
        rw [first, second] at alike
        cases alike
      | ok answer =>
        obtain ⟨endedAgain, nextAgain⟩ := answer
        rw [first, second] at alike
        obtain ⟨rfl, sameNext⟩ := Prod.mk.inj (Option.some.inj alike)
        obtain ⟨lexemes, failed⟩ := ih (position + 1) (place + 1) sameNext
        exact ⟨congrArg (ended ++ ·) lexemes, failed⟩

theorem scanFrom_append {position : Nat} {pending next : Pending} {front : List Char}
    {ended : List Lexeme} (fed : feed delimiters position pending front = .ok (ended, next))
    (rest : List Char) : scanFrom delimiters position pending (front ++ rest) =
      (scanFrom delimiters (position + front.length) next rest).prepend ended := by
  induction front generalizing position pending ended with
  | nil =>
    cases fed
    rfl
  | cons c front ih =>
    obtain ⟨⟨first, middle⟩, offered, fed⟩ := Result.bind_eq_ok.mp fed
    obtain ⟨⟨later, last⟩, fedRest, same⟩ := Result.bind_eq_ok.mp fed
    cases same
    rw [List.cons_append, scanFrom, offered]
    simp only [ih fedRest, Scan.prepend, List.append_assoc, List.length_cons, Nat.add_assoc,
      Nat.add_comm 1]

theorem Scan.Alike.read {first second : Scan} (alike : first.Alike second)
    (inner : String → Result Expression) :
    Result.Alike id (first.read inner) (second.read inner) := by
  obtain ⟨lexemes, failure⟩ := first
  obtain ⟨same, other⟩ := second
  obtain ⟨rfl, failed⟩ := alike
  have lexemesAlike : Result.Alike id (lexemes.mapM (Lexeme.read inner))
      (lexemes.mapM (Lexeme.read inner)) := rfl
  refine lexemesAlike.bind fun tokens again same => ?_
  obtain rfl : tokens = again := same
  cases failure <;> cases other
  · rfl
  · cases failed
  · cases failed
  · rfl

end Lexeme

namespace Expression

open Lexeme

variable {delimiters : Delimiters}

/-- What is read at all is read wherever nothing is being read. -/
theorem spells_of_read {text : String} {tokens : Expression}
    (answer : read Delimiters.standard text = .ok tokens) : Spells text.toList tokens := by
  intro position
  obtain ⟨complete, lexemesRead⟩ := Scan.read_eq_ok (read_eq _ text ▸ answer)
  have alike : (scan .standard text).Alike (scanFrom .standard position .nothing text.toList) :=
    alike_scanFrom 0 position rfl text.toList
  obtain ⟨lexemes, failed⟩ := alike
  have completeHere : (scanFrom .standard position .nothing text.toList).failure = none := by
    rwa [complete, Option.isSome_none, eq_comm, Option.isSome_eq_false_iff,
      Option.isNone_iff_eq_none] at failed
  obtain ⟨ended, last, later, fed, finished, all⟩ := scanFrom_failure_eq_none _ completeHere
  rw [lexemes, all] at lexemesRead
  exact ⟨ended, last, later, fed, finished, lexemesRead⟩

/-- What stands behind a text that is read and a blank character is read as it is alone. -/
theorem alike_read_blank {blank : Char} (isBlank : Text.isBlank blank = true)
    (free : delimiters.find? blank = none) {front : String} {tokens : Expression}
    (answer : read delimiters front = .ok tokens) (rest : String) :
    Result.Alike id (read delimiters (front.push blank ++ rest))
      (read delimiters rest >>= fun others => .ok (tokens ++ others)) := by
  obtain ⟨ended, last, lexemes, fed, finished, -, lexemesRead⟩ := exists_feed_of_read answer
  have passed : feed delimiters 0 .nothing (front.toList ++ [blank]) =
      .ok (ended ++ lexemes, .nothing) := by
    rw [feed_append, fed, Result.ok_bind, feed_cons,
      offer_blank isBlank free (isPlain_of_finish finished), finished]
    simp
  have chars : (front.push blank ++ rest).toList = front.toList ++ [blank] ++ rest.toList := by
    simp
  rw [read_eq, read_eq, scan, scan, chars, scanFrom_append passed, Scan.read_prepend, lexemesRead,
    Result.ok_bind]
  refine ((alike_scanFrom _ 0 rfl rest.toList).read _).bind fun others again same => ?_
  obtain rfl : others = again := same
  rfl

/-- A blank character that opens no literal separates tokens and does nothing else: behind a text
that is read and such a character, another text is read as it is alone, or fails as it does alone.
The piece in front of the character is finished as the end of the text finishes it. -/
theorem read_around_blank (delimiters : Delimiters) {blank : Char}
    (isBlank : Text.isBlank blank = true) (free : delimiters.find? blank = none) :
    (∀ front rest tokens, read delimiters front = .ok tokens →
      (∀ others, read delimiters rest = .ok others →
        read delimiters (front.push blank ++ rest) = .ok (tokens ++ others)) ∧
      ∀ failure, read delimiters rest = .error failure →
        ∃ other, read delimiters (front.push blank ++ rest) = .error other) ∧
    ∀ position pending, pending.isPlain = true →
      offer delimiters position blank pending =
        finish pending >>= fun ended => .ok (ended, .nothing) := by
  refine ⟨fun front rest tokens answer => ?_, fun position pending plain =>
    offer_blank isBlank free plain position⟩
  have alike := alike_read_blank isBlank free answer rest
  cases together : read delimiters (front.push blank ++ rest) with
  | ok all =>
    refine ⟨fun others alone => ?_, fun failure alone => ?_⟩
    · rw [together, alone] at alike
      exact congrArg Except.ok (Option.some.inj alike)
    · rw [together, alone] at alike
      cases alike
  | error other =>
    refine ⟨fun others alone => ?_, fun failure alone => ⟨other, rfl⟩⟩
    rw [together, alone] at alike
    cases alike

/-- A tab behind `no`, in front of `not` and in front of a text that is not read. -/
theorem read_around_blank_tab :
    Text.isBlank '\t' = true ∧ Delimiters.standard.find? '\t' = none ∧
      read Delimiters.standard ("(a.b)no".push '\t' ++ "not x") =
        .ok [.group [.identifier ⟨"a", ["b"]⟩], .identifier ⟨"no", []⟩, .operator .negation,
          .identifier ⟨"x", []⟩] ∧
      (∃ failure, read Delimiters.standard ("(a.b)no".push '\t' ++ "=") = .error failure) ∧
      offer Delimiters.standard 7 '\t' (.operator "no" 5) =
        .ok ([.token (.identifier ⟨"no", []⟩)], .nothing) := by
  have isBlank : Text.isBlank '\t' = true := by decide
  have free : Delimiters.standard.find? '\t' = none := by decide
  have front : read Delimiters.standard "(a.b)no" =
      .ok [.group [.identifier ⟨"a", ["b"]⟩], .identifier ⟨"no", []⟩] := rfl
  have behind : read Delimiters.standard "not x" =
      .ok [.operator .negation, .identifier ⟨"x", []⟩] := rfl
  have fails : read Delimiters.standard "=" = .error (.unknownOperator "=" 0) := rfl
  obtain ⟨sideBySide, ends⟩ := read_around_blank Delimiters.standard isBlank free
  exact ⟨isBlank, free, (sideBySide _ _ _ front).1 _ behind, (sideBySide _ _ _ front).2 _ fails,
    ends 7 (.operator "no" 5) rfl⟩

end Expression

end Stencil
