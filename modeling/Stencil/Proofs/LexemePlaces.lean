import Stencil.Proofs.OpenLiterals
import Stencil.Proofs.ReadTokens
import Stencil.Proofs.ValueOrigin

/-! # Where lexemes stand

A scan makes nothing up. The operator, the word, the list or the group that is being read stands at
the end of what has been read, right behind the position kept with it; so the names, items and
bodies that are cut out stand in the text, and what a failure names stands where the failure says:
`Lexeme.standsIn_scan`.
-/

namespace Stencil

namespace Identifier

/-- A text of parts between points, in which every character may stand at its place. A part may be
empty. -/
def IsDotted (text : String) : Prop :=
  text ≠ "" ∧ ∃ parts last, text.toList = parts.flatMap (· ++ ['.']) ++ last ∧
    ∀ part ∈ parts ++ [last], '.' ∉ part ∧ misplaced? part = none

private theorem isDotted_of_isName {text : String} (name : isName text = true) : IsDotted text := by
  have noPoint := not_point_mem_of_isName name
  rw [isName, Bool.and_eq_true, Option.isNone_iff_eq_none] at name
  exact ⟨by simpa using name.1, [], text.toList, rfl, by simpa using ⟨noPoint, name.2⟩⟩

private theorem misplaced?_append_singleton {part : List Char} {c : Char}
    (placed : misplaced? part = none) (goesOn : isNameChar part.isEmpty c = true) :
    misplaced? (part ++ [c]) = none := by
  cases part with
  | nil => simpa [misplaced?] using goesOn
  | cons first rest =>
    rw [misplaced?] at placed
    split at placed
    · next starts =>
      rw [List.cons_append, misplaced?, if_pos starts, List.find?_append, placed, Option.none_or]
      simpa using goesOn
    · cases placed

/-- The last character of a text without points in its last part. -/
private theorem back?_of_point {text : String} {front : List Char}
    (ends : text.toList = front ++ ['.']) : (text.back? == some '.') = true := by
  have pushed : text = (String.ofList front).push '.' := by
    rw [← String.toList_inj, ends, String.toList_push, String.toList_ofList]
  rw [pushed, Lexeme.back?_push]
  rfl

private theorem isDotted_push {text : String} {c : Char} (dotted : IsDotted text)
    (goesOn : c = '.' ∨ isNameChar (text.back? == some '.') c = true) : IsDotted (text.push c) := by
  obtain ⟨filled, parts, last, split, placed⟩ := dotted
  have longer : text.push c ≠ "" := fun same => by
    simpa using congrArg String.length same
  by_cases point : c = '.'
  · refine ⟨longer, parts ++ [last], [], ?_, ?_⟩
    · rw [String.toList_push, split, point]
      simp
    · rw [List.forall_mem_append]
      exact ⟨placed, by simp [misplaced?]⟩
  · have nameChar := goesOn.resolve_left point
    rw [List.forall_mem_append, List.forall_mem_singleton] at placed
    obtain ⟨partsPlaced, noPoint, lastPlaced⟩ := placed
    have fits : isNameChar last.isEmpty c = true := by
      cases last with
      | cons first rest => exact Lexeme.isNameChar_of_first nameChar
      | nil =>
        -- an empty last part of a text that is not empty stands behind a point
        rcases List.eq_nil_or_concat parts with rfl | ⟨others, part, rfl⟩
        · exact absurd (String.toList_eq_nil_iff.mp split) filled
        · have ends : text.toList = (others.flatMap (· ++ ['.']) ++ part) ++ ['.'] := by
            rw [split]
            simp
          rwa [back?_of_point ends] at nameChar
    refine ⟨longer, parts, last ++ [c], by rw [String.toList_push, split, List.append_assoc], ?_⟩
    rw [List.forall_mem_append, List.forall_mem_singleton]
    refine ⟨partsPlaced, ?_, misplaced?_append_singleton lastPlaced fits⟩
    simp [noPoint, Ne.symm point]

private theorem splitOn_point {parts : List (List Char)} {last : List Char}
    (noPoint : ∀ part ∈ parts ++ [last], '.' ∉ part) :
    (parts.flatMap (· ++ ['.']) ++ last).splitOn '.' = parts ++ [last] := by
  induction parts with
  | nil => exact List.splitOn_eq_singleton (noPoint last (by simp))
  | cons part rest ih =>
    rw [List.cons_append, List.forall_mem_cons] at noPoint
    rw [List.flatMap_cons, List.append_assoc, List.append_assoc, List.singleton_append,
      List.splitOn_append_cons_self_of_not_mem noPoint.1, ih noPoint.2, List.cons_append]

/-- Only an empty part keeps a dotted text from being a path. -/
private theorem eq_emptySegment_of_ofPath {text : String} {fault : SyntaxFault}
    (dotted : IsDotted text)
    (failed : ofPath text = .error fault) : fault = .emptySegment text := by
  obtain ⟨-, parts, last, split, placed⟩ := dotted
  have cut := splitOn_point fun part member => (placed part member).1
  rw [← split] at cut
  simp only [ofPath, cut] at failed
  split at failed
  · next found =>
    cases failed
    obtain ⟨segment, member, same⟩ := List.exists_of_findSome?_eq_some found
    rw [segmentFault?] at same
    split at same
    · cases same
      rfl
    · rw [(placed segment (List.mem_reverse.mp member)).2] at same
      cases same
  · split at failed
    · cases failed
      rfl
    · cases failed

/-- A path starts with its name. -/
theorem name_prefix_of_ofPath {text : String} {path : Identifier} (read : ofPath text = .ok path) :
    path.name.toList <+: text.toList := by
  obtain ⟨parts, -⟩ := segments_of_ofPath read
  rw [segments] at parts
  cases cut : text.toList.splitOn '.' with
  | nil =>
    rw [cut] at parts
    cases parts
  | cons first rest =>
    rw [cut, List.map_cons] at parts
    have whole : List.intercalate ['.'] (text.toList.splitOn '.') = text.toList :=
      List.intercalate_splitOn '.'
    rw [(List.cons.inj parts).1, String.toList_ofList, ← whole, cut]
    cases rest with
    | nil => simp
    | cons second others =>
      rw [List.intercalate_cons_cons, List.append_assoc]
      exact List.prefix_append _ _

end Identifier

/-- The characters that a failure of reading names, and the position at which it says they
stand. -/
def Error.named? : Error → Option (Nat × List Char)
  | .malformed ⟨some position, .unexpectedCharacter c⟩ => some (position, [c])
  | .malformed ⟨some position, .literalInsideWord c⟩ => some (position, [c])
  | .malformed ⟨some position, .literalInsideNumber c⟩ => some (position, [c])
  | .unknownOperator operator position => some (position, operator.toList)
  | _ => none

/-- A failure of scanning a text: what it names stands there in the text. -/
structure Error.IsScanError (text : List Char) (error : Error) : Prop where
  ofReading : (∃ fault, error = .malformed fault) ∨
    ∃ operator position, error = .unknownOperator operator position
  stands : ∀ position named, error.named? = some (position, named) →
    named <+: text.drop position

private theorem Error.IsScanError.append {text : List Char} {error : Error}
    (isScanError : error.IsScanError text) (more : List Char) :
    error.IsScanError (text ++ more) := by
  refine ⟨isScanError.ofReading, fun position named names => ?_⟩
  rw [List.drop_append]
  exact List.prefix_append_of_prefix (isScanError.stands position named names)

/-- A fault that names no character. -/
private theorem SyntaxFault.isScanError_of_none {fault : SyntaxFault} {position : Nat}
    {text : List Char} (silent : (fault.placed position).named? = none) :
    (fault.placed position).IsScanError text := by
  refine ⟨.inl ⟨_, rfl⟩, fun _ _ names => ?_⟩
  rw [silent] at names
  cases names

/-- A fault at the character that has just been read. -/
private theorem SyntaxFault.isScanError_of_some {fault : SyntaxFault} {before : List Char}
    {c : Char} (names : (fault.placed before.length).named? = some (before.length, [c])) :
    (fault.placed before.length).IsScanError (before ++ [c]) := by
  refine ⟨.inl ⟨_, rfl⟩, fun position named found => ?_⟩
  rw [names] at found
  cases found
  exact ⟨[], by rw [List.drop_left, List.append_nil]⟩

namespace Lexeme

variable {delimiters : Delimiters} {before : List Char} {c : Char}

/-- A text that ends with another one, which starts at the given position. -/
def EndsWith (before : List Char) (text : String) (start : Nat) : Prop :=
  ∃ front, front.length = start ∧ before = front ++ text.toList

namespace EndsWith

variable {text : String} {start : Nat}

private theorem push (ends : EndsWith before text start) (c : Char) :
    EndsWith (before ++ [c]) (text.push c) start := by
  obtain ⟨front, length, rfl⟩ := ends
  exact ⟨front, length, by rw [String.toList_push, List.append_assoc]⟩

theorem isInfix (ends : EndsWith before text start) : text.toList <:+: before := by
  obtain ⟨front, -, rfl⟩ := ends
  exact (List.suffix_append front _).isInfix

private theorem prefix_drop (ends : EndsWith before text start) :
    text.toList <+: before.drop start := by
  obtain ⟨front, rfl, rfl⟩ := ends
  exact ⟨[], by rw [List.drop_left, List.append_nil]⟩

/-- In front of a text that does not start first there is a character. -/
private theorem exists_cons_isInfix {part : List Char} (ends : EndsWith before text (start + 1))
    (starts : part <+: text.toList) : ∃ opening, opening :: part <:+: before := by
  obtain ⟨front, length, rfl⟩ := ends
  obtain ⟨behind, same⟩ := starts
  have filled : front ≠ [] := by
    rintro rfl
    cases length
  obtain ⟨outer, opening, rfl⟩ := (List.eq_nil_or_concat front).resolve_left filled
  exact ⟨opening, outer, behind, by rw [← same]; simp⟩

end EndsWith

private theorem endsWith_empty (before : List Char) : EndsWith before "" before.length :=
  ⟨before, rfl, by simp⟩

private theorem endsWith_character (before : List Char) (c : Char) :
    EndsWith (before ++ [c]) c.toString before.length :=
  ⟨before, rfl, by rw [Char.toString_eq_singleton, String.toList_singleton]⟩

section WrittenLists

private theorem intercalate_append_singleton (items : List String) (item : String) :
    ",".intercalate (items ++ [item]) =
      (if items.isEmpty then "" else ",".intercalate items ++ ",") ++ item := by
  induction items with
  | nil => simp
  | cons first rest ih =>
    cases rest with
    | nil => simp [String.intercalate_cons_cons]
    | cons second others =>
      rw [List.cons_append, List.cons_append, String.intercalate_cons_cons, ← List.cons_append, ih,
        String.intercalate_cons_cons]
      simp [String.append_assoc]

private theorem intercalate_push (items : List String) (item : String) (c : Char) :
    ",".intercalate (items ++ [item.push c]) = (",".intercalate (items ++ [item])).push c := by
  rw [intercalate_append_singleton, intercalate_append_singleton, ← String.toList_inj]
  simp

private theorem intercalate_comma (items : List String) (item : String) :
    ",".intercalate (items ++ [item] ++ [""]) = (",".intercalate (items ++ [item])).push ',' := by
  have filled : (items ++ [item]).isEmpty = false := by simp
  rw [intercalate_append_singleton (items ++ [item]), filled, ← String.toList_inj]
  simp

private theorem intercalate_isPrefix (items : List String) (item : String) :
    (",".intercalate items).toList <+: (",".intercalate (items ++ [item])).toList := by
  rw [intercalate_append_singleton]
  cases items with
  | nil => simp
  | cons first rest => simp

theorem exists_append_of_mem_intercalate {separator item : String} {items : List String}
    (member : item ∈ items) : ∃ before after,
      (separator.intercalate items).toList = before ++ item.toList ++ after := by
  induction items with
  | nil => cases member
  | cons first rest ih =>
    cases rest with
    | nil =>
      obtain rfl := List.mem_singleton.mp member
      exact ⟨[], [], by simp⟩
    | cons second others =>
      rw [String.intercalate_cons_cons]
      rcases List.mem_cons.mp member with rfl | member
      · exact ⟨[], separator.toList ++ (separator.intercalate (second :: others)).toList, by simp⟩
      · obtain ⟨before, after, same⟩ := ih member
        exact ⟨first.toList ++ separator.toList ++ before, after, by simp [same]⟩

end WrittenLists

open Result

section Places

/-- A lexeme that has been cut out of a text: its name stands in the text, and so do its items,
with a comma between them, or its body, behind the character that opened them. -/
def StandsIn (text : List Char) : Lexeme → Prop
  | .token complete => ∀ path ∈ complete.paths, path.name.toList <:+: text
  | .list items => ∃ opening, opening :: (",".intercalate items).toList <:+: text
  | .group body => ∃ opening, opening :: body.toList <:+: text

theorem StandsIn.append {text : List Char} {lexeme : Lexeme} (stands : lexeme.StandsIn text)
    (more : List Char) : lexeme.StandsIn (text ++ more) := by
  have whole : text <:+: text ++ more := (List.prefix_append text more).isInfix
  cases lexeme with
  | token complete => exact fun path member => (stands path member).trans whole
  | list items =>
    obtain ⟨opening, inside⟩ := stands
    exact ⟨opening, inside.trans whole⟩
  | group body =>
    obtain ⟨opening, inside⟩ := stands
    exact ⟨opening, inside.trans whole⟩

/-- An item or a body stands in the text that it has been cut out of, and not first. -/
theorem StandsIn.exists_append {text : List Char} {lexeme : Lexeme} (stands : lexeme.StandsIn text)
    {inner : String} (listed : inner ∈ lexeme.inners) :
    ∃ before after, text = before ++ inner.toList ++ after ∧ before ≠ [] := by
  cases lexeme with
  | token complete => cases listed
  | list items =>
    obtain ⟨opening, outer, behind, same⟩ := stands
    obtain ⟨before, after, whole⟩ : ∃ before after,
        (",".intercalate items).toList = before ++ inner.toList ++ after :=
      exists_append_of_mem_intercalate listed
    exact ⟨outer ++ opening :: before, after ++ behind, by rw [← same, whole]; simp, by simp⟩
  | group body =>
    obtain ⟨opening, outer, behind, same⟩ := stands
    obtain rfl := List.mem_singleton.mp listed
    exact ⟨outer ++ [opening], behind, by rw [← same]; simp, by simp⟩

/-- A piece that stands at the end of what has been read, behind its position. -/
def Pending.IsBehind (before : List Char) : Pending → Prop
  | .operator text start => EndsWith before text start
  | .word text start => EndsWith before text start ∧ Identifier.IsDotted text
  | .enclosed (.list _ items item) start =>
    EndsWith before (",".intercalate (items ++ [item])) (start + 1)
  | .enclosed (.group _ body) start => EndsWith before body (start + 1)
  | .enclosed (.quote ..) _ | .nothing | .number _ => True

/-- A literal that has gone on or has been closed at the end of what has been read. -/
def Progress.IsBehind (before : List Char) (start : Nat) : Progress → Prop
  | .more literal => Pending.IsBehind before (.enclosed literal start)
  | .closed lexeme => lexeme.StandsIn before

/-- What a character leaves: a piece that stands at the end of what has been read, to which a
character that was not consumed does not belong yet, and lexemes that stand in it. -/
def Step.IsBehind (before : List Char) (c : Char) (taken : Step) : Prop :=
  taken.pending.IsBehind (if taken.consumed then before ++ [c] else before) ∧
    ∀ lexeme ∈ taken.ended, lexeme.StandsIn (before ++ [c])

end Places

section OneCharacter

private theorem satisfies_ofWord {text : String} {start : Nat} (inside : text.toList <:+: before)
    (dotted : Identifier.IsDotted text) :
    Satisfies (StandsIn before) (Error.IsScanError before) (ofWord text start) := by
  rw [ofWord]
  split
  · next path read =>
    intro other member
    obtain rfl := List.mem_singleton.mp member
    exact (Identifier.name_prefix_of_ofPath read).isInfix.trans inside
  · next fault failed =>
    obtain rfl := Identifier.eq_emptySegment_of_ofPath dotted failed
    exact SyntaxFault.isScanError_of_none rfl

private theorem isBehind_ofDelimiter (delimiter : Delimiter) :
    Pending.IsBehind (before ++ [c]) (.enclosed (.ofDelimiter delimiter) before.length) := by
  have opened : EndsWith (before ++ [c]) "" (before.length + 1) := by
    have ends := endsWith_empty (before ++ [c])
    rwa [List.length_append] at ends
  rw [Enclosed.ofDelimiter]
  cases delimiter.enclosure with
  | quote => trivial
  | list => exact opened
  | group => exact opened

private theorem satisfies_begin : Satisfies (Pending.IsBehind (before ++ [c]))
    (Error.IsScanError (before ++ [c])) (begin delimiters before.length c) := by
  have here := endsWith_character before c
  rw [begin]
  split
  · exact isBehind_ofDelimiter _
  · split
    · exact here
    · split
      · trivial
      · split
        · next starts =>
          refine ⟨here, Identifier.isDotted_of_isName ?_⟩
          exact Identifier.isName_iff.mpr
            ⟨c, [], by simp [Char.toString_eq_singleton], starts, List.forall_mem_nil _⟩
        · split
          · trivial
          · exact SyntaxFault.isScanError_of_some rfl

private theorem satisfies_endWith {lexeme : Lexeme} (stands : lexeme.StandsIn (before ++ [c])) :
    Satisfies (Step.IsBehind before c) (Error.IsScanError (before ++ [c]))
      (endWith delimiters before.length c lexeme) :=
  satisfies_begin.bind fun _ behind => ⟨behind, List.forall_mem_singleton.mpr stands⟩

private theorem isBehind_more {pending : Pending} (behind : pending.IsBehind (before ++ [c])) :
    Step.IsBehind before c ⟨[], pending, true⟩ :=
  ⟨behind, List.forall_mem_nil _⟩

private theorem satisfies_stepOperator {text : String} {start : Nat}
    (ends : EndsWith before text start) :
    Satisfies (Step.IsBehind before c) (Error.IsScanError (before ++ [c]))
      (stepOperator delimiters before.length c text start) := by
  have longer := ends.push c
  have word (name : Identifier.isName (text.push c) = true) :
      Pending.IsBehind (before ++ [c]) (.word (text.push c) start) :=
    ⟨longer, Identifier.isDotted_of_isName name⟩
  simp only [stepOperator]
  split
  · exact isBehind_more longer
  · split
    · split
      · next goesOn =>
        rw [Bool.and_eq_true] at goesOn
        exact isBehind_more (word goesOn.2)
      · exact satisfies_endWith (List.forall_mem_nil _)
    · split
      · next name => exact isBehind_more (word name)
      · split
        · next name => exact ⟨⟨ends, Identifier.isDotted_of_isName name⟩, List.forall_mem_nil _⟩
        · refine ⟨.inr ⟨_, _, rfl⟩, ?_⟩
          rintro _ _ ⟨⟩
          rw [List.drop_append]
          exact List.prefix_append_of_prefix ends.prefix_drop

private theorem satisfies_stepWord {text : String} {start : Nat} (ends : EndsWith before text start)
    (dotted : Identifier.IsDotted text) :
    Satisfies (Step.IsBehind before c) (Error.IsScanError (before ++ [c]))
      (stepWord delimiters before.length c text start) := by
  have inside : text.toList <:+: before ++ [c] :=
    ends.isInfix.trans (List.prefix_append before [c]).isInfix
  rw [stepWord]
  split
  · exact SyntaxFault.isScanError_of_some rfl
  · split
    · next goesOn => exact isBehind_more ⟨ends.push c, Identifier.isDotted_push dotted goesOn⟩
    · exact (satisfies_ofWord inside dotted).bind fun _ stands => satisfies_endWith stands

private theorem standsIn_ofNumeral (numeral : Decimal.Numeral) (text : List Char) :
    (ofNumeral numeral).StandsIn text := by
  rw [ofNumeral]
  split <;> exact List.forall_mem_nil _

private theorem satisfies_stepNumber (numeral : Decimal.Numeral) :
    Satisfies (Step.IsBehind before c) (Error.IsScanError (before ++ [c]))
      (stepNumber delimiters before.length c numeral) := by
  rw [stepNumber]
  split
  · exact SyntaxFault.isScanError_of_some rfl
  · split
    · exact isBehind_more trivial
    · exact ⟨trivial, List.forall_mem_singleton.mpr (standsIn_ofNumeral numeral _)⟩

private theorem isBehind_of_push {literal : Enclosed} {start : Nat} {progress : Progress}
    (behind : Pending.IsBehind before (.enclosed literal start))
    (pushed : literal.push delimiters c = .ok progress) :
    progress.IsBehind (before ++ [c]) start := by
  have whole {text : List Char} (inside : text <:+: before) : text <:+: before ++ [c] :=
    inside.trans (List.prefix_append before [c]).isInfix
  cases literal with
  | quote delimiter text escaped =>
    cases pushed
    rw [Enclosed.pushQuoted]
    repeat' split
    all_goals first | trivial | exact List.forall_mem_nil _
  | list delimiter items item =>
    rcases Enclosed.pushListed_cases pushed with ⟨rfl, -⟩ | ⟨-, -, rfl, rfl⟩ | ⟨-, -, rfl⟩
    · have ends := EndsWith.push behind c
      rwa [← intercalate_push] at ends
    · have ends := EndsWith.push behind ','
      rwa [← intercalate_comma] at ends
    · split
      · obtain ⟨opening, inside⟩ :=
          EndsWith.exists_cons_isInfix behind (intercalate_isPrefix items item)
        exact ⟨opening, whole inside⟩
      · obtain ⟨opening, inside⟩ := EndsWith.exists_cons_isInfix behind List.prefix_rfl
        exact ⟨opening, whole inside⟩
  | group delimiter body =>
    rcases Enclosed.pushGrouped_cases pushed with ⟨rfl, -⟩ | ⟨-, -, rfl⟩
    · exact EndsWith.push behind c
    · obtain ⟨opening, inside⟩ := EndsWith.exists_cons_isInfix behind List.prefix_rfl
      exact ⟨opening, whole inside⟩

/-- One step keeps the piece being read at the end of what has been read. -/
theorem satisfies_step {pending : Pending} (behind : pending.IsBehind before) :
    Satisfies (Step.IsBehind before c) (Error.IsScanError (before ++ [c]))
      (step delimiters before.length c pending) := by
  cases pending with
  | nothing => exact satisfies_begin.bind fun _ behind => isBehind_more behind
  | operator text start => exact satisfies_stepOperator behind
  | word text start => exact satisfies_stepWord behind.1 behind.2
  | number numeral => exact satisfies_stepNumber numeral
  | enclosed literal start =>
    rw [step, stepEnclosed]
    split
    · next longer pushed => exact isBehind_more (isBehind_of_push behind pushed)
    · next lexeme pushed =>
      exact ⟨trivial, List.forall_mem_singleton.mpr (isBehind_of_push behind pushed)⟩
    · next fault pushed =>
      apply SyntaxFault.isScanError_of_none
      rcases push_error pushed with rfl | ⟨closing, text, rfl⟩ <;> rfl

/-- A piece that consumes every character. -/
def Pending.IsGreedy : Pending → Prop
  | .nothing | .word .. => True
  | .operator .. | .number _ | .enclosed .. => False

private theorem consumed_of_endWith {position : Nat} {lexeme : Lexeme} {taken : Step}
    (ended : endWith delimiters position c lexeme = .ok taken) : taken.consumed = true := by
  obtain ⟨next, -, same⟩ := bind_eq_ok.mp ended
  cases same
  rfl

theorem consumed_of_isGreedy {position : Nat} {pending : Pending} {taken : Step}
    (greedy : pending.IsGreedy) (stepped : step delimiters position c pending = .ok taken) :
    taken.consumed = true := by
  cases pending with
  | nothing =>
    obtain ⟨next, -, same⟩ := bind_eq_ok.mp stepped
    cases same
    rfl
  | word text start =>
    rw [step, stepWord] at stepped
    split at stepped
    · cases stepped
    · split at stepped
      · cases stepped
        rfl
      · obtain ⟨lexeme, -, ended⟩ := bind_eq_ok.mp stepped
        exact consumed_of_endWith ended
  | operator | number | enclosed => exact greedy.elim

theorem isGreedy_of_step {position : Nat} {pending : Pending} {taken : Step}
    (stepped : step delimiters position c pending = .ok taken) (given : taken.consumed = false) :
    taken.pending.IsGreedy := by
  have notEnded {lexeme : Lexeme}
      (ended : endWith delimiters position c lexeme = .ok taken) : taken.pending.IsGreedy := by
    rw [consumed_of_endWith ended] at given
    cases given
  cases pending with
  | nothing | word =>
    have consumed := consumed_of_isGreedy (by trivial) stepped
    rw [consumed] at given
    cases given
  | operator text start =>
    simp only [step, stepOperator] at stepped
    repeat' split at stepped
    all_goals first | exact notEnded stepped | cases stepped
    all_goals first | exact trivial | cases given
  | number numeral =>
    rw [step, stepNumber] at stepped
    repeat' split at stepped
    all_goals cases stepped
    all_goals first | exact trivial | cases given
  | enclosed literal start =>
    rw [step, stepEnclosed] at stepped
    repeat' split at stepped
    all_goals cases stepped
    all_goals cases given

/-- A character that is given back is the next one for the piece that is left. -/
theorem satisfies_offer {pending : Pending} (behind : pending.IsBehind before) :
    Satisfies (fun answer => answer.2.IsBehind (before ++ [c]) ∧
        ∀ lexeme ∈ answer.1, lexeme.StandsIn (before ++ [c]))
      (Error.IsScanError (before ++ [c])) (offer delimiters before.length c pending) := by
  rw [offer]
  cases stepped : step delimiters before.length c pending with
  | error failure => exact (satisfies_step behind).of_error stepped
  | ok first =>
    obtain ⟨firstBehind, firstStand⟩ := (satisfies_step behind).of_ok stepped
    rw [ok_bind]
    split
    · next consumed =>
      rw [if_pos consumed] at firstBehind
      exact ⟨firstBehind, firstStand⟩
    · next given =>
      rw [if_neg given] at firstBehind
      have greedy := isGreedy_of_step stepped (by simpa using given)
      cases again : step delimiters before.length c first.pending with
      | error failure => exact (satisfies_step firstBehind).of_error again
      | ok second =>
        obtain ⟨secondBehind, secondStand⟩ := (satisfies_step firstBehind).of_ok again
        rw [if_pos (consumed_of_isGreedy greedy again)] at secondBehind
        exact ⟨secondBehind, List.forall_mem_append.mpr ⟨firstStand, secondStand⟩⟩

theorem satisfies_finish {pending : Pending} (behind : pending.IsBehind before) :
    Satisfies (fun lexemes => ∀ lexeme ∈ lexemes, StandsIn before lexeme)
      (Error.IsScanError before) (finish pending) := by
  have single {text : String} {start : Nat} (ends : EndsWith before text start)
      (dotted : Identifier.IsDotted text) :
      Satisfies (fun lexemes => ∀ lexeme ∈ lexemes, StandsIn before lexeme)
        (Error.IsScanError before) (do return [← ofWord text start]) :=
    (satisfies_ofWord ends.isInfix dotted).bind fun _ stands => List.forall_mem_singleton.mpr stands
  cases pending with
  | nothing => exact List.forall_mem_nil _
  | operator text start =>
    rw [finish]
    split
    · exact List.forall_mem_singleton.mpr (List.forall_mem_nil _)
    · split
      · next name => exact single behind (Identifier.isDotted_of_isName name)
      · refine ⟨.inr ⟨_, _, rfl⟩, ?_⟩
        rintro _ _ ⟨⟩
        exact EndsWith.prefix_drop behind
  | word text start => exact single behind.1 behind.2
  | number numeral => exact List.forall_mem_singleton.mpr (standsIn_ofNumeral numeral before)
  | enclosed literal start => exact SyntaxFault.isScanError_of_none rfl

end OneCharacter

/-- A scan whose lexemes and whose failure stand in a text. -/
structure Scan.StandsIn (text : List Char) (scan : Scan) : Prop where
  lexemes : ∀ lexeme ∈ scan.lexemes, lexeme.StandsIn text
  failure : ∀ error, scan.failure = some error → error.IsScanError text

/-- Behind what has been read, a scan goes on in the same text. -/
theorem standsIn_scanFrom {pending : Pending} (behind : pending.IsBehind before)
    (rest : List Char) :
    (scanFrom delimiters before.length pending rest).StandsIn (before ++ rest) := by
  induction rest generalizing before pending with
  | nil =>
    have finished := satisfies_finish behind
    rw [scanFrom, List.append_nil]
    split
    · next lexemes same =>
      refine ⟨finished.of_ok same, ?_⟩
      rintro _ ⟨⟩
    · next failure same =>
      refine ⟨List.forall_mem_nil _, ?_⟩
      rintro _ ⟨⟩
      exact finished.of_error same
  | cons c rest ih =>
    have offered : Satisfies _ _ (offer delimiters before.length c pending) :=
      satisfies_offer behind
    have regroup : before ++ c :: rest = before ++ [c] ++ rest := by simp
    rw [scanFrom, regroup]
    split
    · next lexemes next same =>
      obtain ⟨nextBehind, stand⟩ := offered.of_ok same
      have later := ih nextBehind
      rw [List.length_append] at later
      refine ⟨List.forall_mem_append.mpr ⟨fun lexeme member => ?_, later.lexemes⟩, later.failure⟩
      exact (stand lexeme member).append rest
    · next failure same =>
      refine ⟨List.forall_mem_nil _, ?_⟩
      rintro _ ⟨⟩
      exact (offered.of_error same).append rest

/-- What a scan cuts out of a text stands in the text, and so does what its failure names. -/
theorem standsIn_scan (text : String) : (scan delimiters text).StandsIn text.toList := by
  have nothing : Pending.IsBehind [] .nothing := trivial
  exact standsIn_scanFrom nothing text.toList

end Lexeme

end Stencil
