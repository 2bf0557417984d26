import Stencil.Context
import Stencil.Proofs.ReadTokens
import Stencil.Proofs.Splitting

/-! # Paths of identifiers

A text is a path exactly if it consists of names with a point between any two of them. The path
is written as that text again, and its value is found by looking up the names one after the other.
Every other text has a segment that is no name, and the last one of these is what the failure is
about: `Identifier.ofPath_names`.
-/

namespace Stencil

/-- A letter from A to Z, in capitals or not, or the underscore. -/
def IsLetter (c : Char) : Prop :=
  'A' ≤ c ∧ c ≤ 'Z' ∨ 'a' ≤ c ∧ c ≤ 'z' ∨ c = '_'

/-- A letter, the underscore or a decimal digit. -/
def IsLetterOrDigit (c : Char) : Prop :=
  IsLetter c ∨ '0' ≤ c ∧ c ≤ '9'

/-- The characters of a name: digits stand behind the first one only. -/
inductive IsNameText : List Char → Prop
  | intro {first : Char} {rest : List Char} (starts : IsLetter first)
      (follows : ∀ c ∈ rest, IsLetterOrDigit c) : IsNameText (first :: rest)

/-- A text that is one or more names, joined by points. -/
structure IsPathOf (text : String) (names : List String) : Prop where
  filled : names ≠ []
  areNames : ∀ name ∈ names, IsNameText name.toList
  joined : ".".intercalate names = text

/-- What is wrong with a segment of a path that is no name: it is empty, or some character is the
first one that may not stand at its place. -/
inductive IsSegmentFault (path : String) : List Char → SyntaxFault → Prop
  | empty : IsSegmentFault path [] (.emptySegment path)
  | first {c : Char} {rest : List Char} (misplaced : ¬IsLetter c) :
      IsSegmentFault path (c :: rest) (.unexpectedCharacter c)
  | later {first c : Char} {front back : List Char} (starts : IsLetter first)
      (follows : ∀ d ∈ front, IsLetterOrDigit d) (misplaced : ¬IsLetterOrDigit c) :
      IsSegmentFault path (first :: (front ++ c :: back)) (.unexpectedCharacter c)

namespace Identifier

private theorem isNameChar_first {c : Char} : isNameChar true c = true ↔ IsLetter c := by
  have capital : c.isUpper = true ↔ 'A' ≤ c ∧ c ≤ 'Z' := isUpper_iff
  have small : c.isLower = true ↔ 'a' ≤ c ∧ c ≤ 'z' := isLower_iff
  rw [IsLetter, ← or_assoc, ← capital, ← small, ← isAlpha_iff]
  simp [isNameChar, or_comm]

private theorem isNameChar_later {c : Char} : isNameChar false c = true ↔ IsLetterOrDigit c := by
  have split : isNameChar false c = (isNameChar true c || c.isDigit) := by
    simp [isNameChar]
  rw [split, Bool.or_eq_true, isNameChar_first, Char.isDigit, Bool.and_eq_true, decide_eq_true_eq,
    decide_eq_true_eq]
  rfl

private theorem follows_iff {rest : List Char} :
    (∀ c ∈ rest, isNameChar false c = true) ↔ ∀ c ∈ rest, IsLetterOrDigit c :=
  forall₂_congr fun _ _ => isNameChar_later

variable {path : String} {segment : List Char}

section Segments

private theorem segmentFault?_cons (first : Char) (rest : List Char) :
    segmentFault? path (first :: rest) =
      if isNameChar true first then
        (rest.find? fun c => !isNameChar false c).map .unexpectedCharacter
      else some (.unexpectedCharacter first) := by
  rw [segmentFault?, List.isEmpty_cons, if_neg Bool.false_ne_true, misplaced?]
  split <;> rfl

private theorem segmentFault?_eq_none : segmentFault? path segment = none ↔ IsNameText segment := by
  cases segment with
  | nil => exact ⟨nofun, nofun⟩
  | cons first rest =>
    have names : IsNameText (first :: rest) ↔
        isNameChar true first = true ∧ ∀ c ∈ rest, isNameChar false c = true := by
      rw [isNameChar_first, follows_iff]
      exact ⟨fun | .intro starts follows => ⟨starts, follows⟩, fun both => .intro both.1 both.2⟩
    rw [segmentFault?_cons, names]
    split
    · next starts => simp [starts]
    · next starts => simp [starts]

private theorem segmentFault?_eq_some {fault : SyntaxFault} :
    segmentFault? path segment = some fault ↔ IsSegmentFault path segment fault := by
  constructor
  · intro found
    cases segment with
    | nil =>
      cases found
      exact .empty
    | cons first rest =>
      rw [segmentFault?_cons] at found
      split at found
      · next starts =>
        obtain ⟨c, isFirst, rfl⟩ := Option.map_eq_some_iff.mp found
        obtain ⟨misplaced, front, back, rfl, follows⟩ := List.find?_eq_some_iff_append.mp isFirst
        refine .later (isNameChar_first.mp starts) (follows_iff.mp ?_) ?_
        · simpa using follows
        · simpa [← isNameChar_later] using misplaced
      · next starts =>
        cases found
        exact .first (mt isNameChar_first.mpr starts)
  · intro isFault
    cases isFault with
    | empty => rfl
    | first misplaced => rw [segmentFault?_cons, if_neg (mt isNameChar_first.mp misplaced)]
    | @later first c front back starts follows misplaced =>
      have found : (front ++ c :: back).find? (fun d => !isNameChar false d) = some c := by
        refine List.find?_eq_some_iff_append.mpr ⟨?_, front, back, rfl, ?_⟩
        · simpa [← isNameChar_later] using misplaced
        · simpa using follows_iff.mpr follows
      rw [segmentFault?_cons, if_pos (isNameChar_first.mpr starts), found]
      rfl

end Segments

variable {text : String}

section Reading

private theorem ofPath_eq_error_iff_findSome? {fault : SyntaxFault} : ofPath text = .error fault ↔
    (text.toList.splitOn '.').reverse.findSome? (segmentFault? text) = some fault := by
  rw [ofPath]
  split
  · next found => rw [found, Except.error.injEq, Option.some.injEq]
  · next faultless =>
    rw [faultless]
    split
    · next nothing => exact (List.splitOn_ne_nil _ _ (List.map_eq_nil_iff.mp nothing)).elim
    · simp only [reduceCtorEq]

/-- The last segment that is no name decides about the failure. -/
theorem ofPath_eq_error {fault : SyntaxFault} :
    ofPath text = .error fault ↔ ∃ front segment back,
      IsCutAt '.' text.toList (front ++ segment :: back) ∧
        (∀ name ∈ back, IsNameText name) ∧ IsSegmentFault text segment fault := by
  rw [ofPath_eq_error_iff_findSome?, List.findSome?_eq_some_iff]
  constructor
  · rintro ⟨back, segment, front, cut, found, faultless⟩
    rw [List.reverse_eq_iff, List.reverse_append, List.reverse_cons, List.append_assoc] at cut
    refine ⟨front.reverse, segment, back.reverse, isCutAt_iff.mpr cut, fun name member => ?_,
      segmentFault?_eq_some.mp found⟩
    exact segmentFault?_eq_none.mp (faultless name (List.mem_reverse.mp member))
  · rintro ⟨front, segment, back, cut, areNames, isFault⟩
    refine ⟨back.reverse, segment, front.reverse, ?_, segmentFault?_eq_some.mpr isFault,
      fun name member => segmentFault?_eq_none.mpr (areNames name (List.mem_reverse.mp member))⟩
    rw [isCutAt_iff.mp cut, List.reverse_append, List.reverse_cons, List.append_assoc]
    rfl

end Reading

section Paths

private theorem notMem_point_of_isNameText {name : List Char} (isName : IsNameText name) :
    '.' ∉ name := by
  obtain ⟨starts, follows⟩ := isName
  rename_i first rest
  intro member
  have point : IsLetterOrDigit '.' := by
    rcases List.mem_cons.mp member with rfl | later
    · exact .inl starts
    · exact follows _ later
  rw [← isNameChar_later] at point
  cases point

/-- A path has the names of which it consists, as its parts. -/
theorem isPathOf_iff {names : List String} : IsPathOf text names ↔
    names.map String.toList = text.toList.splitOn '.' ∧
      ∀ name ∈ names, IsNameText name.toList := by
  have joined_iff : ".".intercalate names = text ↔
      ['.'].intercalate (names.map String.toList) = text.toList := by
    rw [← String.toList_inj, String.toList_intercalate]
    rfl
  constructor
  · rintro ⟨filled, areNames, joined⟩
    refine ⟨(isCutAt_iff.mp ⟨?_, ?_, joined_iff.mp joined⟩).symm, areNames⟩
    · simpa using filled
    · simpa using fun name member => notMem_point_of_isNameText (areNames name member)
  · rintro ⟨cut, areNames⟩
    obtain ⟨filled, -, joined⟩ := isCutAt_iff.mpr cut.symm
    exact ⟨by simpa using filled, areNames, joined_iff.mpr joined⟩

private theorem eq_of_isPathOf {names others : List String} (isPath : IsPathOf text names)
    (isOther : IsPathOf text others) : names = others := by
  have same := (isPathOf_iff.mp isPath).1.trans (isPathOf_iff.mp isOther).1.symm
  exact (List.map_inj_right fun _ _ => String.toList_inj.mp).mp same

private theorem isPathOf_of_ofPath {identifier : Identifier} (read : ofPath text = .ok identifier) :
    IsPathOf text identifier.segments := by
  obtain ⟨parts, faultless⟩ := segments_of_ofPath read
  rw [isPathOf_iff, parts]
  constructor
  · simp
  · intro name member
    obtain ⟨segment, listed, rfl⟩ := List.mem_map.mp member
    rw [String.toList_ofList]
    exact segmentFault?_eq_none.mp (faultless segment listed)

private theorem exists_ofPath_of_isPathOf {names : List String} (isPath : IsPathOf text names) :
    ∃ identifier, ofPath text = .ok identifier := by
  cases read : ofPath text with
  | ok identifier => exact ⟨identifier, rfl⟩
  | error fault =>
    obtain ⟨front, segment, back, cut, -, isFault⟩ := ofPath_eq_error.mp read
    obtain ⟨parts, areNames⟩ := isPathOf_iff.mp isPath
    have listed : segment ∈ names.map String.toList := by
      rw [parts, isCutAt_iff.mp cut]
      exact List.mem_append_right _ List.mem_cons_self
    obtain ⟨name, member, rfl⟩ := List.mem_map.mp listed
    have isName : segmentFault? text name.toList = none :=
      segmentFault?_eq_none.mpr (areNames name member)
    rw [segmentFault?_eq_some.mpr isFault] at isName
    cases isName

end Paths

end Identifier

/-- The value that names lead to from a value, each one looked up in the map reached so far. -/
def Value.follow : Value → List String → Value
  | value, [] => value
  | .map entries, name :: rest =>
    match Table.findEntry? name entries with
    | some next => next.follow rest
    | none => .null
  | _, _ :: _ => .null

/-- The value that names lead to from a context, the first one looked up in the context itself. -/
def Context.follow (context : Context) : List String → Value
  | [] => .null
  | name :: rest =>
    match context.find? name with
    | some value => value.follow rest
    | none => .null

@[simp] theorem foldl_attribute?_none (names : List String) :
    names.foldl (fun found name => found.bind (Value.attribute? name)) none = none := by
  induction names with
  | nil => rfl
  | cons name rest ih => exact ih

private theorem Value.foldl_attribute? (value : Value) (names : List String) :
    (names.foldl (fun found name => found.bind (Value.attribute? name)) (some value)).getD .null =
      value.follow names := by
  induction names generalizing value with
  | nil => cases value <;> rfl
  | cons name rest ih =>
    rw [List.foldl_cons, Option.bind_some]
    cases value with
    | map entries =>
      rw [attribute?, follow]
      cases Table.findEntry? name entries with
      | some next => exact ih next
      | none => simp
    | null | bool | int | float | str | list =>
      exact congrArg (Option.getD · .null) (foldl_attribute?_none rest)

private theorem Context.resolve_eq_follow (context : Context) (identifier : Identifier) :
    context.resolve identifier = context.follow identifier.segments := by
  rw [resolve, Identifier.segments, follow]
  cases context.find? identifier.name with
  | some value => exact value.foldl_attribute? identifier.attributes
  | none => simp

/-- A text is read as an identifier exactly if it consists of names joined by points. Then it is the
text of the identifier, which stands for the value that the names lead to. Otherwise the last
segment that is no name decides about the failure. -/
theorem Identifier.ofPath_names (text : String) :
    ((∃ identifier, ofPath text = .ok identifier) ↔ ∃ names, IsPathOf text names) ∧
    (∀ identifier, ofPath text = .ok identifier →
      identifier.toText = text ∧ ofPath identifier.toText = .ok identifier ∧
        ∀ names, IsPathOf text names → identifier.segments = names ∧
          ∀ context : Context, context.resolve identifier = context.follow names) ∧
    ∀ fault, ofPath text = .error fault ↔ ∃ front segment back,
      IsCutAt '.' text.toList (front ++ segment :: back) ∧
        (∀ name ∈ back, IsNameText name) ∧ IsSegmentFault text segment fault := by
  refine ⟨⟨?_, ?_⟩, fun identifier read => ?_, fun fault => ofPath_eq_error⟩
  · rintro ⟨identifier, read⟩
    exact ⟨_, isPathOf_of_ofPath read⟩
  · rintro ⟨names, isPath⟩
    exact exists_ofPath_of_isPathOf isPath
  · have isPath := isPathOf_of_ofPath read
    have same : identifier.toText = text := isPath.joined
    refine ⟨same, by rw [same, read], fun names isOther => ?_⟩
    obtain rfl := eq_of_isPathOf isOther isPath
    exact ⟨rfl, fun context => context.resolve_eq_follow identifier⟩

example : Identifier.ofPath "a.1b.c" = .error (.unexpectedCharacter '1') := by decide +kernel

end Stencil
