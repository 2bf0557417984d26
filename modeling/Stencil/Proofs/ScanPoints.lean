import Stencil.Proofs.PieceSlots

/-! # Points of a scan

The characters of a text are offered to the slots one after the other, each of them until it is
consumed, however often that takes. It takes two offers at most, as the slots never hold more than
one piece and the piece that is left when a character is refused refuses none, `isAt_of_reached`.
The lexemes that end at such points stand in the text, and so do their inner texts in the order in
which they are read, `standsIn_of_ends`.
-/

namespace Stencil

namespace Lexeme

open Result

/-- Texts that stand in a text one behind the other, without overlapping. -/
def StandInOrder : List String → List Char → Prop
  | [], _ => True
  | first :: others, text =>
    ∃ before after, text = before ++ first.toList ++ after ∧ StandInOrder others after

namespace StandInOrder

variable {texts : List String} {text : List Char}

private theorem append_left (inOrder : StandInOrder texts text) (front : List Char) :
    StandInOrder texts (front ++ text) := by
  cases texts with
  | nil => trivial
  | cons first others =>
    obtain ⟨before, after, rfl, later⟩ := inOrder
    exact ⟨front ++ before, after, by simp, later⟩

private theorem append_right (inOrder : StandInOrder texts text) (back : List Char) :
    StandInOrder texts (text ++ back) := by
  induction texts generalizing text with
  | nil => trivial
  | cons first others ih =>
    obtain ⟨before, after, rfl, later⟩ := inOrder
    exact ⟨before, after ++ back, by simp, ih later⟩

private theorem mono {part : List Char} (inOrder : StandInOrder texts part)
    (inside : part <:+: text) : StandInOrder texts text := by
  obtain ⟨front, back, rfl⟩ := inside
  exact (inOrder.append_left front).append_right back

end StandInOrder

private theorem standInOrder_intercalate (separator : String) (items : List String) :
    StandInOrder items (separator.intercalate items).toList := by
  induction items with
  | nil => trivial
  | cons first rest ih =>
    cases rest with
    | nil => exact ⟨[], [], by simp, trivial⟩
    | cons second others =>
      rw [String.intercalate_cons_cons]
      exact ⟨[], separator.toList ++ (separator.intercalate (second :: others)).toList, by simp,
        ih.append_left _⟩

/-- The inner texts of a lexeme stand in order in the text that it has been cut out of, and are
shorter. -/
theorem StandsIn.inners {text : List Char} {lexeme : Lexeme} (stands : lexeme.StandsIn text) :
    StandInOrder lexeme.inners text ∧ ∀ inner ∈ lexeme.inners, inner.length < text.length := by
  constructor
  · cases lexeme with
    | token complete => trivial
    | list items =>
      obtain ⟨opening, inside⟩ := stands
      exact (standInOrder_intercalate "," items).mono
        ((List.suffix_cons opening _).isInfix.trans inside)
    | group body =>
      obtain ⟨opening, front, back, rfl⟩ := stands
      exact ⟨front ++ [opening], back, by simp, trivial⟩
  · intro inner listed
    obtain ⟨before, after, rfl, filled⟩ := stands.exists_append listed
    have := List.length_pos_iff.mpr filled
    rw [List.length_append, List.length_append, String.length_toList]
    omega

/-- A point of the run over a text: the position of the next character and what is left of the text,
the slots, and how often the next character has been offered without being consumed. -/
structure Point where
  position : Nat
  rest : List Char
  slots : Slots
  refusals : Nat

namespace Point

/-- The point in front of a text. -/
def start (text : String) : Point :=
  ⟨0, text.toList, { }, 0⟩

/-- The point behind an offer of the next character. -/
def next (point : Point) (rest : List Char) (taken : Slots.Step) : Point :=
  if taken.consumed then ⟨point.position + 1, rest, taken.slots, 0⟩
  else { point with slots := taken.slots, refusals := point.refusals + 1 }

/-- Offers the next character to the slots: the lexemes that it ends, and the point behind it.
Behind the last character there is none. -/
def offer? (delimiters : Delimiters) (point : Point) : Option (Result (List Lexeme × Point)) :=
  match point.rest with
  | [] => none
  | c :: rest => some do
    let taken ← point.slots.step delimiters point.position c
    return (taken.ended, point.next rest taken)

end Point

/-- The points that are reached in a text, also behind inner texts that cannot be read. -/
inductive Reached (delimiters : Delimiters) (text : String) : Point → Prop
  | start : Reached delimiters text (.start text)
  | offer {point next : Point} {ended : List Lexeme} (reached : Reached delimiters text point)
    (offered : point.offer? delimiters = some (.ok (ended, next))) :
    Reached delimiters text next

/-- The lexemes that end in a text: those that a character ends, and those that end with it. -/
inductive Ends (delimiters : Delimiters) (text : String) : Lexeme → Prop
  | offer {point next : Point} {ended : List Lexeme} {lexeme : Lexeme}
    (reached : Reached delimiters text point)
    (offered : point.offer? delimiters = some (.ok (ended, next))) (member : lexeme ∈ ended) :
    Ends delimiters text lexeme
  | finish {point : Point} {ended : List Lexeme} {lexeme : Lexeme}
    (reached : Reached delimiters text point) (atEnd : point.offer? delimiters = none)
    (finished : point.slots.finish = .ok ended) (member : lexeme ∈ ended) :
    Ends delimiters text lexeme

section Piece

variable {delimiters : Delimiters}

/-- A point behind a part of a text, at which the slots hold a piece that stands at the end of that
part. If the next character has been refused, then once, and the piece refuses none. -/
structure Point.IsAt (text before : List Char) (pending : Pending) (point : Point) : Prop where
  whole : text = before ++ point.rest
  position : point.position = before.length
  slots : point.slots = .ofPending pending
  behind : pending.IsBehind before
  refusals : point.refusals = 0 ∨ point.refusals = 1 ∧ pending.IsGreedy

variable {text before : List Char} {pending : Pending} {point next : Point}

theorem Point.IsAt.refusals_le (isAt : point.IsAt text before pending) : point.refusals ≤ 1 := by
  rcases isAt.refusals with never | ⟨once, -⟩ <;> omega

theorem isAt_start (text : String) : (Point.start text).IsAt text.toList [] .nothing :=
  ⟨rfl, rfl, rfl, trivial, .inl rfl⟩

theorem rest_eq_nil_of_offer? (atEnd : point.offer? delimiters = none) : point.rest = [] := by
  rw [Point.offer?] at atEnd
  split at atEnd
  · assumption
  · cases atEnd

/-- An offer at a point does what it does to the piece. -/
theorem offer?_eq_some (isAt : point.IsAt text before pending)
    {answer : Result (List Lexeme × Point)} (offered : point.offer? delimiters = some answer) :
    ∃ c rest, point.rest = c :: rest ∧
      answer = (step delimiters before.length c pending).map fun taken =>
        (taken.ended, point.next rest (Slots.ofStep taken)) := by
  rw [Point.offer?, isAt.slots, isAt.position] at offered
  split at offered
  · cases offered
  · next c rest left =>
    refine ⟨c, rest, left, ?_⟩
    rw [Slots.step_ofPending] at offered
    cases stepped : step delimiters before.length c pending <;> rw [stepped] at offered <;>
      exact (Option.some.inj offered).symm

/-- Behind an offer the character has been consumed, or it has been refused once more. -/
theorem offer?_cases (isAt : point.IsAt text before pending) {ended : List Lexeme}
    (offered : point.offer? delimiters = some (.ok (ended, next))) :
    ∃ c rest taken, point.rest = c :: rest ∧
      step delimiters before.length c pending = .ok taken ∧ ended = taken.ended ∧
      (taken.consumed = true ∧ next = ⟨before.length + 1, rest, .ofPending taken.pending, 0⟩ ∨
        taken.consumed = false ∧
          next = ⟨before.length, c :: rest, .ofPending taken.pending, point.refusals + 1⟩) := by
  obtain ⟨c, rest, left, same⟩ := offer?_eq_some isAt offered
  cases stepped : step delimiters before.length c pending with
  | error failure =>
    rw [stepped] at same
    cases same
  | ok taken =>
    rw [stepped] at same
    cases same
    refine ⟨c, rest, taken, left, stepped, rfl, ?_⟩
    cases answer : taken.consumed with
    | true => exact .inl ⟨rfl, by rw [Point.next, Slots.ofStep, answer, isAt.position, if_pos rfl]⟩
    | false =>
      refine .inr ⟨rfl, ?_⟩
      rw [Point.next, Slots.ofStep, answer, isAt.position, left, if_neg Bool.false_ne_true]

/-- A character that is consumed is the last one of the part that has been read. -/
theorem isAt_of_consumed (isAt : point.IsAt text before pending) {c : Char} {rest : List Char}
    (left : point.rest = c :: rest) {taken : Step}
    (stepped : step delimiters before.length c pending = .ok taken)
    (consumed : taken.consumed = true) :
    Point.IsAt text (before ++ [c]) taken.pending
      ⟨before.length + 1, rest, .ofPending taken.pending, 0⟩ := by
  have behind := ((satisfies_step isAt.behind).of_ok stepped).1
  rw [if_pos consumed] at behind
  refine ⟨?_, ?_, rfl, behind, .inl rfl⟩
  · rw [isAt.whole, left, List.append_cons]
  · rw [List.length_append, List.length_singleton]

/-- A character that is refused has not been refused before, and is not refused again. -/
theorem isAt_of_refused (isAt : point.IsAt text before pending) {c : Char} {rest : List Char}
    (left : point.rest = c :: rest) {taken : Step}
    (stepped : step delimiters before.length c pending = .ok taken)
    (refused : taken.consumed = false) :
    Point.IsAt text before taken.pending
      ⟨before.length, c :: rest, .ofPending taken.pending, point.refusals + 1⟩ := by
  have behind := ((satisfies_step isAt.behind).of_ok stepped).1
  rw [refused, if_neg Bool.false_ne_true] at behind
  have never : point.refusals = 0 := by
    rcases isAt.refusals with never | ⟨-, greedy⟩
    · exact never
    · rw [consumed_of_isGreedy greedy stepped] at refused
      cases refused
  exact ⟨left ▸ isAt.whole, rfl, rfl, behind,
    .inr ⟨congrArg (· + 1) never, isGreedy_of_step stepped refused⟩⟩

private theorem exists_isAt_of_offer? (isAt : point.IsAt text before pending) {ended : List Lexeme}
    (offered : point.offer? delimiters = some (.ok (ended, next))) :
    ∃ part later, next.IsAt text part later := by
  obtain ⟨c, rest, taken, left, stepped, -, ⟨consumed, rfl⟩ | ⟨refused, rfl⟩⟩ :=
    offer?_cases isAt offered
  · exact ⟨_, _, isAt_of_consumed isAt left stepped consumed⟩
  · exact ⟨_, _, isAt_of_refused isAt left stepped refused⟩

/-- At every point that is reached the slots hold at most one piece. -/
theorem isAt_of_reached {text : String} (reached : Reached delimiters text point) :
    ∃ before pending, point.IsAt text.toList before pending := by
  induction reached with
  | start => exact ⟨[], .nothing, isAt_start text⟩
  | offer _ offered ih =>
    obtain ⟨before, pending, isAt⟩ := ih
    exact exists_isAt_of_offer? isAt offered

theorem standsIn_of_offer? (isAt : point.IsAt text before pending) {ended : List Lexeme}
    (offered : point.offer? delimiters = some (.ok (ended, next))) :
    ∀ lexeme ∈ ended, lexeme.StandsIn text := by
  obtain ⟨c, rest, taken, left, stepped, rfl, -⟩ := offer?_cases isAt offered
  intro lexeme member
  have stands := ((satisfies_step isAt.behind).of_ok stepped).2 lexeme member
  rw [isAt.whole, left, List.append_cons]
  exact stands.append rest

theorem standsIn_of_finish (isAt : point.IsAt text before pending)
    (atEnd : point.offer? delimiters = none) {ended : List Lexeme}
    (finished : point.slots.finish = .ok ended) : ∀ lexeme ∈ ended, lexeme.StandsIn text := by
  rw [isAt.slots, Slots.finish_ofPending] at finished
  rw [isAt.whole, rest_eq_nil_of_offer? atEnd, List.append_nil]
  exact (satisfies_finish isAt.behind).of_ok finished

/-- The lexemes that end in a text stand in it. -/
theorem standsIn_of_ends {text : String} {lexeme : Lexeme} (ends : Ends delimiters text lexeme) :
    lexeme.StandsIn text.toList := by
  cases ends with
  | offer reached offered member =>
    obtain ⟨before, pending, isAt⟩ := isAt_of_reached reached
    exact standsIn_of_offer? isAt offered lexeme member
  | finish reached atEnd finished member =>
    obtain ⟨before, pending, isAt⟩ := isAt_of_reached reached
    exact standsIn_of_finish isAt atEnd finished lexeme member

end Piece

end Lexeme

end Stencil
