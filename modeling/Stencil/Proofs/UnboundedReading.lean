import Stencil.Proofs.ScanPoints

/-! # Reading without bounds

A text is read by a run over its points. The lexemes that end at a point become tokens there, for
which inner texts are read by runs of their own. Nothing bounds how often a character is offered or
how deep inner texts are read. Still every text has exactly one answer, which is that of
`Expression.read`: `Expression.reading_terminates`.
-/

namespace Stencil

namespace Lexeme

open Result

variable {delimiters : Delimiters} {text before : List Char} {pending : Pending}
  {point next : Point}

/-- What is left to scan at a point, with the piece that its slots hold. -/
def Point.scan (delimiters : Delimiters) (point : Point) (pending : Pending) : Scan :=
  scanFrom delimiters point.position pending point.rest

/-- A bound on the offers that are still made: two for each character, less the one that has been
refused. -/
def Point.weight (point : Point) : Nat :=
  2 * point.rest.length - point.refusals

private theorem inners_of_refused {position : Nat} {c : Char} {taken : Step}
    (stepped : step delimiters position c pending = .ok taken) (refused : taken.consumed = false) :
    ∀ lexeme ∈ taken.ended, lexeme.inners = [] := by
  cases pending with
  | enclosed literal start =>
    rw [step, stepEnclosed] at stepped
    repeat' split at stepped
    all_goals cases stepped
    all_goals cases refused
  | nothing | operator | word | number => exact (step_isFresh delimiters rfl stepped).1

variable (inner : String → Result Expression)

/-- What a character ends that is refused can be read. -/
private theorem exists_mapM_of_refused {position : Nat} {c : Char} {taken : Step}
    (stepped : step delimiters position c pending = .ok taken) (refused : taken.consumed = false) :
    ∃ tokens, taken.ended.mapM (Lexeme.read inner) = .ok tokens := by
  cases answers : taken.ended.mapM (Lexeme.read inner) with
  | ok tokens => exact ⟨tokens, rfl⟩
  | error failure =>
    obtain ⟨lexeme, member, failed⟩ := exists_of_mapM_eq_error answers
    obtain ⟨text, listed, -⟩ := exists_of_read_error failed
    rw [inners_of_refused stepped refused lexeme member] at listed
    cases listed

/-- Behind a character that is refused the reading goes on with the piece that is left. -/
private theorem read_scanFrom_of_refused {position : Nat} {c : Char} {taken : Step}
    (stepped : step delimiters position c pending = .ok taken) (refused : taken.consumed = false)
    (rest : List Char) :
    (scanFrom delimiters position pending (c :: rest)).read inner =
      ((scanFrom delimiters position taken.pending (c :: rest)).prepend
        taken.ended).read inner := by
  rw [scanFrom, scanFrom, offer, offer, stepped, ok_bind, refused, if_neg Bool.false_ne_true]
  cases again : step delimiters position c taken.pending with
  | ok second =>
    have consumed := consumed_of_isGreedy (isGreedy_of_step stepped refused) again
    simp only [ok_bind, consumed, if_true, pure, Except.pure, Scan.prepend, List.append_assoc]
  | error failure =>
    -- what the first offer ends is dropped from a scan that fails at the second one
    obtain ⟨tokens, read⟩ := exists_mapM_of_refused inner stepped refused
    rw [Scan.read_prepend, read]
    rfl

/-- An offer at a point leaves less to do, and does not change what is read. -/
theorem read_scan_of_offer? (isAt : point.IsAt text before pending) {ended : List Lexeme}
    (offered : point.offer? delimiters = some (.ok (ended, next))) :
    ∃ part later, next.IsAt text part later ∧ next.weight < point.weight ∧
      (point.scan delimiters pending).read inner =
        ((next.scan delimiters later).prepend ended).read inner := by
  have few := isAt.refusals_le
  obtain ⟨c, rest, taken, left, stepped, rfl, ⟨consumed, rfl⟩ | ⟨refused, rfl⟩⟩ :=
    offer?_cases isAt offered
  · refine ⟨_, _, isAt_of_consumed isAt left stepped consumed, ?_, ?_⟩
    · simp only [Point.weight, left, List.length_cons]
      omega
    · rw [Point.scan, isAt.position, left, scanFrom, offer_of_step stepped consumed]
      rfl
  · refine ⟨_, _, isAt_of_refused isAt left stepped refused, ?_, ?_⟩
    · simp only [Point.weight, left, List.length_cons]
      omega
    · rw [Point.scan, isAt.position, left]
      exact read_scanFrom_of_refused inner stepped refused rest

private theorem read_scan_of_failed (isAt : point.IsAt text before pending) {failure : Error}
    (offered : point.offer? delimiters = some (.error failure)) :
    (point.scan delimiters pending).read inner = .error failure := by
  obtain ⟨c, rest, left, same⟩ := offer?_eq_some isAt offered
  cases stepped : step delimiters before.length c pending with
  | ok taken =>
    rw [stepped] at same
    cases same
  | error other =>
    rw [stepped] at same
    cases same
    rw [Point.scan, isAt.position, left, scanFrom, offer, stepped]
    rfl

private theorem read_scan_of_end (isAt : point.IsAt text before pending)
    (atEnd : point.offer? delimiters = none) : (point.scan delimiters pending).read inner =
      point.slots.finish >>= fun lexemes => lexemes.mapM (Lexeme.read inner) := by
  rw [Point.scan, rest_eq_nil_of_offer? atEnd, scanFrom, isAt.slots, Slots.finish_ofPending]
  cases finish pending with
  | ok lexemes => exact bind_pure _
  | error failure => rfl

/-- Doing one thing after the other, up to the first failure. -/
inductive InTurn {α β : Type} (does : α → Result β → Prop) : List α → Result (List β) → Prop
  | done : InTurn does [] (.ok [])
  | stop {a : α} {rest : List α} {failure : Error} (failed : does a (.error failure)) :
    InTurn does (a :: rest) (.error failure)
  | next {a : α} {rest : List α} {b : β} {others : Result (List β)} (first : does a (.ok b))
    (later : InTurn does rest others) : InTurn does (a :: rest) (others.map (b :: ·))

/-- The token of a lexeme, given how inner texts are read. -/
inductive Becomes (reads : String → Result Expression → Prop) : Lexeme → Result Token → Prop
  | token {complete : Token} : Becomes reads (.token complete) (.ok complete)
  | list {items : List String} {answer : Result (List Expression)}
    (read : InTurn reads items answer) : Becomes reads (.list items) (answer.map .list)
  | group {body : String} {answer : Result Expression} (read : reads body answer) :
    Becomes reads (.group body) (answer.map .group)

/-- The run from a point on, given how inner texts are read: the lexemes that an offer ends become
tokens before the next one is made. -/
inductive Runs (delimiters : Delimiters) (reads : String → Result Expression → Prop) :
    Point → Result Expression → Prop
  | failed {point : Point} {failure : Error}
    (offered : point.offer? delimiters = some (.error failure)) :
    Runs delimiters reads point (.error failure)
  | innerFailed {point next : Point} {ended : List Lexeme} {failure : Error}
    (offered : point.offer? delimiters = some (.ok (ended, next)))
    (become : InTurn (Becomes reads) ended (.error failure)) :
    Runs delimiters reads point (.error failure)
  | offer {point next : Point} {ended : List Lexeme} {tokens : List Token}
    {later : Result Expression} (offered : point.offer? delimiters = some (.ok (ended, next)))
    (become : InTurn (Becomes reads) ended (.ok tokens))
    (goesOn : Runs delimiters reads next later) :
    Runs delimiters reads point (later.map (tokens ++ ·))
  | unfinished {point : Point} {failure : Error} (atEnd : point.offer? delimiters = none)
    (finished : point.slots.finish = .error failure) : Runs delimiters reads point (.error failure)
  | finish {point : Point} {ended : List Lexeme} {answer : Result Expression}
    (atEnd : point.offer? delimiters = none) (finished : point.slots.finish = .ok ended)
    (become : InTurn (Becomes reads) ended answer) : Runs delimiters reads point answer

variable {reads : String → Result Expression → Prop}

private theorem inTurn_iff {α β : Type} {does : α → Result β → Prop} {f : α → Result β}
    {items : List α}
    (each : ∀ a ∈ items, ∀ answer, does a answer ↔ answer = f a) {answers : Result (List β)} :
    InTurn does items answers ↔ answers = items.mapM f := by
  induction items generalizing answers with
  | nil =>
    constructor
    · rintro ⟨⟩
      rfl
    · rintro rfl
      exact .done
  | cons a rest ih =>
    have first := each a List.mem_cons_self
    have others {answers : Result (List β)} :=
      @ih (fun other member => each other (List.mem_cons_of_mem a member)) answers
    rw [List.mapM_cons]
    constructor
    · intro turn
      cases turn with
      | stop failed => rw [← (first _).mp failed, error_bind]
      | @next _ _ b answers done later =>
        rw [← (first _).mp done, ok_bind, ← others.mp later]
        cases answers <;> rfl
    · rintro rfl
      cases same : f a with
      | error failure => exact .stop ((first _).mpr same.symm)
      | ok b => exact .next ((first _).mpr same.symm) (others.mpr rfl)

private theorem becomes_iff {lexeme : Lexeme}
    (each : ∀ text ∈ lexeme.inners, ∀ answer, reads text answer ↔ answer = inner text)
    {answer : Result Token} : Becomes reads lexeme answer ↔ answer = lexeme.read inner := by
  constructor
  · intro becomes
    cases becomes with
    | token => rfl
    | @list items answers read =>
      have same : answers = items.mapM inner := (inTurn_iff each).mp read
      rw [Lexeme.read, ← same]
      cases answers <;> rfl
    | @group body answer read =>
      rw [Lexeme.read, ← (each body (List.mem_singleton_self body) answer).mp read]
      cases answer <;> rfl
  · rintro rfl
    cases lexeme with
    | token complete => exact .token
    | list items => exact .list ((inTurn_iff each).mpr rfl)
    | group body => exact .group ((each body (List.mem_singleton_self body) _).mpr rfl)

section Shorter

variable {inner : String → Result Expression}
  (each : ∀ part : String, part.length < text.length →
    ∀ answer, reads part answer ↔ answer = inner part)
include each

private theorem inTurn_becomes_iff {ended : List Lexeme}
    (stand : ∀ lexeme ∈ ended, lexeme.StandsIn text) (answer : Result (List Token)) :
    InTurn (Becomes reads) ended answer ↔ answer = ended.mapM (Lexeme.read inner) :=
  inTurn_iff fun lexeme member _ => becomes_iff inner fun part listed =>
    each part ((stand lexeme member).inners.2 part listed)

/-- A run gives what is left to read at its point. -/
theorem Runs.eq_read {answer : Result Expression} (runs : Runs delimiters reads point answer)
    (isAt : point.IsAt text before pending) :
    answer = (point.scan delimiters pending).read inner := by
  induction runs generalizing before pending with
  | failed offered => exact (read_scan_of_failed inner isAt offered).symm
  | innerFailed offered become =>
    obtain ⟨part, later, -, -, same⟩ := read_scan_of_offer? inner isAt offered
    have failed := (inTurn_becomes_iff each (standsIn_of_offer? isAt offered) _).mp become
    rw [same, Scan.read_prepend, ← failed, error_bind]
  | @offer point next ended tokens answer offered become goesOn ih =>
    obtain ⟨part, later, nextIsAt, -, same⟩ := read_scan_of_offer? inner isAt offered
    have read := (inTurn_becomes_iff each (standsIn_of_offer? isAt offered) _).mp become
    rw [same, Scan.read_prepend, ← read, ok_bind, ← ih nextIsAt]
    cases answer <;> rfl
  | unfinished atEnd finished =>
    rw [read_scan_of_end inner isAt atEnd, finished, error_bind]
  | finish atEnd finished become =>
    rw [read_scan_of_end inner isAt atEnd, finished, ok_bind]
    exact (inTurn_becomes_iff each (standsIn_of_finish isAt atEnd finished) _).mp become

/-- From every point there is a run, because every offer leaves fewer of them. -/
theorem runs_read {point : Point} {before : List Char} {pending : Pending}
    (isAt : point.IsAt text before pending) :
    Runs delimiters reads point ((point.scan delimiters pending).read inner) := by
  cases offered : point.offer? delimiters with
  | none =>
    rw [read_scan_of_end inner isAt offered]
    cases finished : point.slots.finish with
    | error failure => exact .unfinished offered finished
    | ok ended =>
      have become := inTurn_becomes_iff each (standsIn_of_finish isAt offered finished)
      exact .finish offered finished ((become _).mpr rfl)
  | some answer =>
    cases answer with
    | error failure =>
      rw [read_scan_of_failed inner isAt offered]
      exact .failed offered
    | ok first =>
      obtain ⟨ended, next⟩ := first
      obtain ⟨part, later, nextIsAt, smaller, same⟩ := read_scan_of_offer? inner isAt offered
      have become := inTurn_becomes_iff each (standsIn_of_offer? isAt offered)
      rw [same, Scan.read_prepend]
      cases read : ended.mapM (Lexeme.read inner) with
      | error failure => exact .innerFailed offered ((become _).mpr read.symm)
      | ok tokens => exact .offer offered ((become _).mpr read.symm) (runs_read nextIsAt)
termination_by point.weight

end Shorter

end Lexeme

namespace Expression

open Lexeme

variable {delimiters : Delimiters}

/-- Reading a text by a run from its start, in which inner texts are read in the same way. -/
inductive Reads (delimiters : Delimiters) : String → Result Expression → Prop
  | ofRun {text : String} {answer : Result Expression}
    (runs : Runs delimiters (Reads delimiters) (.start text) answer) : Reads delimiters text answer

/-- Reading without bounds has one answer for every text, the one that reading within them has. -/
theorem reads_iff (text : String) (answer : Result Expression) :
    Reads delimiters text answer ↔ answer = read delimiters text := by
  have each : ∀ part : String, part.length < text.toList.length →
      ∀ answer, Reads delimiters part answer ↔ answer = read delimiters part := by
    intro part shorter answer
    rw [String.length_toList] at shorter
    exact reads_iff part answer
  rw [read_eq]
  constructor
  · rintro ⟨runs⟩
    exact runs.eq_read each (isAt_start text)
  · rintro rfl
    exact .ofRun (runs_read each (isAt_start text))
termination_by text.length

/-- Reading comes to an end for every text and all delimiters. At every point the slots hold at
most one piece, and with the offer to come the next character has been offered at most twice. The
inner texts of a literal that has ended stand in the text one behind the other, and each of them is
shorter than the text. So a run from the start, in which inner texts are read by runs of their own,
has an answer, and no other one than reading within bounds. -/
theorem reading_terminates (delimiters : Delimiters) (text : String) :
    (∀ point, Reached delimiters text point →
      point.slots.pieces.length ≤ 1 ∧ point.refusals + 1 ≤ 2) ∧
    (∀ lexeme, Ends delimiters text lexeme → StandInOrder lexeme.inners text.toList ∧
      ∀ inner ∈ lexeme.inners, inner.length < text.length) ∧
    ∀ answer, Reads delimiters text answer ↔ answer = read delimiters text := by
  refine ⟨fun point reached => ?_, fun lexeme ends => ?_, reads_iff text⟩
  · obtain ⟨before, pending, isAt⟩ := isAt_of_reached reached
    rw [isAt.slots]
    exact ⟨Slots.length_pieces_ofPending pending, Nat.succ_le_succ isAt.refusals_le⟩
  · rw [← String.length_toList]
    exact (standsIn_of_ends ends).inners

/-- What begins like `not` is a name once a blank follows, and the name is offered the blank again.
-/
example : ∃ point, Reached .standard "n " point ∧ point.refusals = 1 :=
  ⟨_, (Reached.start.offer rfl).offer rfl, rfl⟩

end Expression

end Stencil
