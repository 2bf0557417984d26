import Stencil.Proofs.FirstDefinitions
import Stencil.Proofs.LexemePlaces
import Stencil.Proofs.OpenLiterals

/-! # Texts without the characters of a new literal

A text in which the delimiters of a newly registered literal do not occur is scanned as before: no
character of it opens or closes anything new. The escape character of the new literal, however, is
looked at by every check for open literals, whichever literal it looks into. The check skips the
character behind it, and this is not noticed only if that character opens, closes and escapes
nothing. `Expression.read_register` puts both together.
-/

namespace Stencil

namespace Table

variable {κ υ : Type} [DecidableEq κ] [LT κ] [DecidableLT κ]

/-- Under a free key an entry is added and none is replaced. -/
theorem any_insertEntry {key : κ} {entries : List (κ × υ)} (free : findEntry? key entries = none)
    (value : υ) (p : κ × υ → Bool) :
    (insertEntry key value entries).any p = (p (key, value) || entries.any p) := by
  induction entries with
  | nil => rfl
  | cons entry rest ih =>
    obtain ⟨other, old⟩ := entry
    unfold findEntry? at free
    split at free
    · cases free
    · next differs =>
      rw [insertEntry, if_neg differs]
      split
      · rfl
      · rw [List.any_cons, List.any_cons, ih free, Bool.or_left_comm]

end Table

namespace Delimiters

open Result

variable {delimiters next : Delimiters}

section NewDelimiter

private theorem any_of_foldlM {defined : List Delimiter}
    (added : defined.foldlM add delimiters = .ok next) (p : Delimiter → Bool) :
    next.table.entries.any (fun entry => p entry.2) =
      (defined.any p || delimiters.table.entries.any fun entry => p entry.2) := by
  induction defined generalizing delimiters with
  | nil =>
    cases added
    rfl
  | cons delimiter rest ih =>
    rw [List.foldlM_cons] at added
    obtain ⟨current, stored, added⟩ := bind_eq_ok.mp added
    obtain ⟨free, rfl⟩ := add_eq_ok.mp stored
    rw [ih added, List.any_cons, store, Table.insert, Table.any_insertEntry free,
      Bool.or_left_comm, Bool.or_assoc]

/-- A character that does the same with both, but that it may escape with the second one only. -/
structure Keeps (delimiters next : Delimiters) (escape : Option Char) (c : Char) : Prop where
  opens : next.find? c = delimiters.find? c
  closes : next.closesNesting c = delimiters.closesNesting c
  escapes : delimiters.isEscape c = true → next.isEscape c = true
  new : next.isEscape c = true → delimiters.isEscape c = true ∨ escape = some c

private theorem mem_of_mem_zipWith {start closing : List Char} {escape : Option Char}
    {enclosure : Enclosure} {delimiter : Delimiter}
    (member : delimiter ∈ List.zipWith
      (fun first second => (⟨first, second, escape, enclosure⟩ : Delimiter)) start closing) :
    delimiter.start ∈ start ∧ delimiter.close ∈ closing ∧ delimiter.escape = escape := by
  rw [← List.map_uncurry_zip_eq_zipWith] at member
  obtain ⟨⟨first, second⟩, paired, rfl⟩ := List.mem_map.mp member
  exact ⟨(List.of_mem_zip paired).1, (List.of_mem_zip paired).2, rfl⟩

private theorem keeps_of_register {start : String} {close : Option String} {kind : LiteralKind}
    {escape : Option Char} (registered : delimiters.register start close kind escape = .ok next)
    {c : Char} (foreign : c ∉ start.toList ∧ ∀ closing ∈ close, c ∉ closing.toList) :
    Keeps delimiters next escape c := by
  obtain ⟨enclosure, closing, -, rfl, -, added⟩ := exists_of_register registered
  generalize definedEq : List.zipWith _ start.toList closing.toList = defined at added
  have parts : ∀ delimiter ∈ defined, delimiter.start ∈ start.toList ∧
      delimiter.close ∈ closing.toList ∧ delimiter.escape = escape :=
    fun delimiter member => mem_of_mem_zipWith (definedEq ▸ member)
  refine ⟨(adds_of_foldlM added).others c ?_, ?_, fun escapes => ?_, fun escapes => ?_⟩
  · intro member
    obtain ⟨delimiter, listed, rfl⟩ := List.mem_map.mp member
    exact foreign.1 (parts delimiter listed).1
  · have noneCloses : (defined.any fun delimiter =>
        !delimiter.isSymmetric && delimiter.close == c) = false := by
      rw [List.any_eq_false]
      intro delimiter listed closes
      rw [Bool.and_eq_true, beq_iff_eq] at closes
      exact foreign.2 closing rfl (closes.2 ▸ (parts delimiter listed).2.1)
    rw [closesNesting, any_of_foldlM added (fun delimiter =>
      !delimiter.isSymmetric && delimiter.close == c), noneCloses, Bool.false_or]
    rfl
  · rw [isEscape, any_of_foldlM added (fun delimiter => delimiter.escape == some c),
      Bool.or_eq_true]
    exact .inr escapes
  · rw [isEscape, any_of_foldlM added (fun delimiter => delimiter.escape == some c),
      Bool.or_eq_true, List.any_eq_true] at escapes
    rcases escapes with ⟨delimiter, listed, own⟩ | earlier
    · rw [(parts delimiter listed).2.2, beq_iff_eq] at own
      exact .inr own
    · exact .inl earlier

end NewDelimiter

/-- A character that neither opens nor closes a literal nor escapes the next character. -/
def isInert (delimiters : Delimiters) (c : Char) : Bool :=
  (delimiters.find? c).isNone && !delimiters.closesNesting c && !delimiters.isEscape c

/-- Whether the next character is neither escaped nor inside symmetric delimiters. -/
def Openings.isNesting (openings : Openings) : Bool :=
  !openings.escaped && openings.stack.head?.all (!·.isSymmetric)

/-- Whether a check of the text comes to the given character, neither escaped nor inside symmetric
delimiters, where that character or the one behind it opens, closes or escapes. -/
def exposes (delimiters : Delimiters) (escape : Char) (openings : Openings) : List Char → Bool
  | [] => false
  | c :: rest =>
    (openings.isNesting && c == escape && !(c :: rest.take 1).all delimiters.isInert) ||
      match delimiters.advance? openings c with
      | some next => delimiters.exposes escape next rest
      | none => false

section Check

variable {text : String} {openings : Openings} {escape : Option Char} {c : Char}

private theorem advance_of_isInert (inert : delimiters.isInert c = true)
    (nesting : openings.isNesting = true) : delimiters.advance text openings c = .ok openings := by
  simp only [isInert, Bool.and_eq_true, Option.isNone_iff_eq_none, Bool.not_eq_true'] at inert
  obtain ⟨⟨closed, plain⟩, quiet⟩ := inert
  rcases openings with ⟨_ | ⟨top, outer⟩, _ | _⟩
  · simp [advance, closed, plain, quiet]
  · cases nesting
  · have nests : top.isSymmetric = false := by simpa [Openings.isNesting] using nesting
    simp [advance, closed, plain, quiet, nests]
  · cases nesting

private theorem advance_of_isEscape (escapes : delimiters.isEscape c = true)
    (nesting : openings.isNesting = true) :
    delimiters.advance text openings c = .ok ⟨openings.stack, true⟩ := by
  rcases openings with ⟨_ | ⟨top, outer⟩, _ | _⟩
  · simp [advance, escapes]
  · cases nesting
  · have nests : top.isSymmetric = false := by simpa [Openings.isNesting] using nesting
    simp [advance, escapes, nests]
  · cases nesting

private theorem advance_eq (keeps : Keeps delimiters next escape c)
    (same : openings.isNesting = true → next.isEscape c = delimiters.isEscape c) :
    next.advance text openings c = delimiters.advance text openings c := by
  rcases openings with ⟨_ | ⟨top, outer⟩, _ | _⟩
  · simp only [advance, keeps.opens, keeps.closes, same rfl]
  · rfl
  · cases symmetric : top.isSymmetric with
    | true => simp only [advance, symmetric, if_true]
    | false =>
      have nesting : Openings.isNesting ⟨top :: outer, false⟩ = true := by
        simp [Openings.isNesting, symmetric]
      simp only [advance, keeps.opens, keeps.closes, same nesting]
  · rfl

/-- A character does the same with both, or it escapes the next one with the second one only. -/
theorem advance_cases (keeps : Keeps delimiters next escape c) (text : String)
    (openings : Openings) :
    next.advance text openings c = delimiters.advance text openings c ∨
      openings.isNesting = true ∧ c ∈ escape ∧ delimiters.isEscape c = false ∧
        next.advance text openings c = .ok ⟨openings.stack, true⟩ := by
  by_cases same : openings.isNesting = true → next.isEscape c = delimiters.isEscape c
  · exact .inl (advance_eq keeps same)
  · obtain ⟨nesting, differs⟩ := Classical.not_imp.mp same
    have quiet : delimiters.isEscape c = false := by
      rw [← Bool.not_eq_true]
      intro old
      exact differs (by rw [old, keeps.escapes old])
    have escapes : next.isEscape c = true := by
      rwa [quiet, Bool.not_eq_false] at differs
    have isNew : c ∈ escape := (keeps.new escapes).resolve_left (by simp [quiet])
    exact .inr ⟨nesting, isNew, quiet, advance_of_isEscape escapes nesting⟩

/-- An escaped character is skipped. -/
theorem advance_escaped (nesting : openings.isNesting = true) :
    delimiters.advance text ⟨openings.stack, true⟩ c = .ok openings := by
  rcases openings with ⟨stack, _ | _⟩
  · rfl
  · cases nesting

private theorem exposes_cons (text : String) {e : Char} {rest : List Char}
    (hidden : delimiters.exposes e openings (c :: rest) = false) :
    (openings.isNesting = true → c = e → ∀ d ∈ c :: rest.take 1, delimiters.isInert d = true) ∧
      ∀ after, delimiters.advance text openings c = .ok after →
        delimiters.exposes e after rest = false := by
  rw [exposes, Bool.or_eq_false_iff] at hidden
  refine ⟨fun nesting same => ?_, fun after advanced => ?_⟩
  · simpa [nesting, same] using hidden.1
  · have found := toOption_advance delimiters text openings c
    rw [advanced] at found
    rw [← found] at hidden
    exact hidden.2

/-- A check that skips inert characters ends with the same literals open. The recursion is on the
text: where an escape character is new, both checks are two characters further on in the same
state. -/
theorem map_stack_foldlM (text : String) (openings : Openings) :
    ∀ rest : List Char, (∀ c ∈ rest, Keeps delimiters next escape c) →
      (∀ e ∈ escape, delimiters.isEscape e = false →
        delimiters.exposes e openings rest = false) →
      (rest.foldlM (next.advance text) openings).map Openings.stack =
        (rest.foldlM (delimiters.advance text) openings).map Openings.stack
  | [], _, _ => rfl
  | c :: rest, keeps, hidden => by
    have keepsHere := keeps c List.mem_cons_self
    rw [List.foldlM_cons, List.foldlM_cons]
    rcases advance_cases keepsHere text openings with same | ⟨nesting, isNew, quiet, escaped⟩
    · rw [same]
      cases advanced : delimiters.advance text openings c with
      | error fault => rfl
      | ok after =>
        exact map_stack_foldlM text after rest
          (fun d member => keeps d (List.mem_cons_of_mem c member))
          fun e isEscape old => (exposes_cons text (hidden e isEscape old)).2 after advanced
    · have inert := (exposes_cons text (hidden c isNew quiet)).1 nesting rfl
      have stays : delimiters.advance text openings c = .ok openings :=
        advance_of_isInert (inert c List.mem_cons_self) nesting
      rw [escaped, stays, ok_bind, ok_bind]
      cases rest with
      | nil => rfl
      | cons d rest =>
        have staysBehind : delimiters.advance text openings d = .ok openings :=
          advance_of_isInert (inert d (by simp)) nesting
        rw [List.foldlM_cons, List.foldlM_cons, advance_escaped nesting, staysBehind, ok_bind,
          ok_bind]
        refine map_stack_foldlM text openings rest
          (fun other member => keeps other (by simp [member])) fun e isEscape old => ?_
        have behind := (exposes_cons text (hidden e isEscape old)).2 openings stays
        exact (exposes_cons text behind).2 openings staysBehind
termination_by rest => rest.length

/-- The check gives the same answer, though it may skip other characters. -/
theorem leavesOpen_congr (keeps : ∀ c ∈ text.toList, Keeps delimiters next escape c)
    (hidden : ∀ e ∈ escape, delimiters.isEscape e = false →
      delimiters.exposes e {} text.toList = false) :
    next.leavesOpen text = delimiters.leavesOpen text := by
  have asMap (delimiters : Delimiters) : delimiters.leavesOpen text =
      ((text.toList.foldlM (delimiters.advance text) {}).map Openings.stack).map
        fun stack => !stack.isEmpty := by
    rw [leavesOpen]
    cases text.toList.foldlM (delimiters.advance text) {} <;> rfl
  rw [asMap, asMap, map_stack_foldlM text {} text.toList keeps hidden]

end Check

end Delimiters

namespace Lexeme

open Delimiters Result

variable {delimiters next : Delimiters} {c : Char}

section Checks

/-- The text that is checked for open literals before a character is added to a literal: a list
asks at commas and at its closing character, and a group at its closing character. -/
def Enclosed.checked? (c : Char) : Enclosed → Option String
  | .quote .. => none
  | .list delimiter _ item => if c = ',' ∨ delimiter.close = c then some item else none
  | .group delimiter body => if delimiter.close = c then some body else none

/-- The text that is checked before a character is added to the piece being read. -/
def Pending.checked? (c : Char) : Pending → Option String
  | .enclosed literal _ => literal.checked? c
  | _ => none

/-- The texts that are checked while the rest of a text is scanned. -/
def checksFrom (delimiters : Delimiters) (position : Nat) (pending : Pending) :
    List Char → List String
  | [] => []
  | c :: rest => (pending.checked? c).toList ++
    match offer delimiters position c pending with
    | .ok (_, next) => checksFrom delimiters (position + 1) next rest
    | .error _ => []

private theorem push_congr {literal : Enclosed}
    (agrees : ∀ piece ∈ literal.checked? c, next.leavesOpen piece = delimiters.leavesOpen piece) :
    literal.push next c = literal.push delimiters c := by
  cases literal with
  | quote => rfl
  | list delimiter items item =>
    rw [Enclosed.push, Enclosed.push, Enclosed.pushListed, Enclosed.pushListed]
    split
    · next boundary => rw [agrees item (if_pos boundary)]
    · rfl
  | group delimiter body =>
    rw [Enclosed.push, Enclosed.push, Enclosed.pushGrouped, Enclosed.pushGrouped]
    split
    · next boundary => rw [agrees body (if_pos boundary)]
    · rfl

private theorem begin_congr (opens : next.find? c = delimiters.find? c) (position : Nat) :
    begin next position c = begin delimiters position c := by
  rw [begin, begin, opens]

private theorem endWith_congr (opens : next.find? c = delimiters.find? c) (position : Nat)
    (lexeme : Lexeme) : endWith next position c lexeme = endWith delimiters position c lexeme := by
  rw [endWith, endWith, begin_congr opens]

/-- A character that opens the same, and the check of the same text if there is one, make the same
step. -/
theorem step_congr {pending : Pending} (opens : next.find? c = delimiters.find? c)
    (agrees : ∀ piece ∈ pending.checked? c, next.leavesOpen piece = delimiters.leavesOpen piece)
    (position : Nat) : step next position c pending = step delimiters position c pending := by
  cases pending with
  | nothing => rw [step, step, begin_congr opens]
  | operator text start =>
    simp only [step, stepOperator, endWith_congr opens]
  | word text start =>
    simp only [step, stepWord, endWith_congr opens, opens]
  | number numeral =>
    simp only [step, stepNumber, opens]
  | enclosed literal start =>
    rw [step, step, stepEnclosed, stepEnclosed, push_congr agrees]

private theorem offer_congr {pending : Pending} (opens : next.find? c = delimiters.find? c)
    (agrees : ∀ piece ∈ pending.checked? c, next.leavesOpen piece = delimiters.leavesOpen piece)
    (position : Nat) : offer next position c pending = offer delimiters position c pending := by
  rw [offer, offer, step_congr opens agrees]
  cases stepped : step delimiters position c pending with
  | error failure => rfl
  | ok first =>
    simp only [ok_bind]
    split
    · rfl
    · next given =>
      -- What is left by a character that was not consumed is no literal, so nothing is checked.
      have greedy := isGreedy_of_step stepped (by simpa using given)
      have unchecked : first.pending.checked? c = none := by
        generalize first.pending = left at greedy
        cases left with
        | nothing | word => rfl
        | operator | number | enclosed => exact greedy.elim
      rw [step_congr opens (by simp [unchecked])]

private theorem scanFrom_congr {position : Nat} {pending : Pending} {rest : List Char}
    (opens : ∀ c ∈ rest, next.find? c = delimiters.find? c)
    (agrees : ∀ piece ∈ checksFrom delimiters position pending rest,
      next.leavesOpen piece = delimiters.leavesOpen piece) :
    scanFrom next position pending rest = scanFrom delimiters position pending rest := by
  induction rest generalizing position pending with
  | nil => rfl
  | cons c rest ih =>
    rw [checksFrom, List.forall_mem_append] at agrees
    have same := offer_congr (opens c List.mem_cons_self)
      (fun piece checked => agrees.1 piece (Option.mem_toList.mpr checked)) position
    rw [scanFrom, scanFrom, same]
    cases offered : offer delimiters position c pending with
    | error failure => rfl
    | ok answer =>
      have later := agrees.2
      rw [offered] at later
      dsimp only
      rw [ih (fun d member => opens d (List.mem_cons_of_mem c member)) later]

end Checks

variable {before : List Char}

private theorem infix_of_checked? {pending : Pending} (behind : pending.IsBehind before)
    {piece : String} (checked : pending.checked? c = some piece) : piece.toList <:+: before := by
  cases pending with
  | enclosed literal start =>
    cases literal with
    | quote => cases checked
    | list delimiter items item =>
      obtain ⟨-, same⟩ := Option.ite_none_right_eq_some.mp checked
      cases same
      obtain ⟨front, after, whole⟩ : ∃ front after,
          (",".intercalate (items ++ [piece])).toList = front ++ piece.toList ++ after :=
        exists_append_of_mem_intercalate (by simp)
      exact List.IsInfix.trans ⟨front, after, whole.symm⟩ (EndsWith.isInfix behind)
    | group delimiter body =>
      obtain ⟨-, same⟩ := Option.ite_none_right_eq_some.mp checked
      cases same
      exact EndsWith.isInfix behind
  | nothing | operator | word | number => cases checked

private theorem infix_of_mem_checksFrom {pending : Pending} (behind : pending.IsBehind before)
    {rest : List Char} {piece : String}
    (member : piece ∈ checksFrom delimiters before.length pending rest) :
    piece.toList <:+: before ++ rest := by
  induction rest generalizing before pending with
  | nil => cases member
  | cons c rest ih =>
    rw [checksFrom, List.mem_append] at member
    rcases member with here | later
    · have inside := infix_of_checked? behind (Option.mem_toList.mp here)
      exact inside.trans (List.prefix_append before _).isInfix
    · have offered : Satisfies _ _ (offer delimiters before.length c pending) :=
        satisfies_offer behind
      split at later
      · next ended left same =>
        have regroup : before ++ c :: rest = before ++ [c] ++ rest := by simp
        rw [regroup]
        refine ih (offered.of_ok same).1 ?_
        rwa [List.length_append]
      · cases later

end Lexeme

namespace Expression

open Delimiters Lexeme

variable {delimiters next : Delimiters}

/-- The texts that are checked for open literals while a text of at most `size` characters is
read. -/
def checksWithin (delimiters : Delimiters) : Nat → String → List String
  | 0, _ => []
  | size + 1, text => checksFrom delimiters 0 .nothing text.toList ++
    ((scan delimiters text).lexemes.flatMap Lexeme.inners).flatMap (checksWithin delimiters size)

/-- The texts that are checked for open literals while a text is read. -/
def checks (delimiters : Delimiters) (text : String) : List String :=
  checksWithin delimiters text.length text

private theorem readWithin_congr {escape : Option Char} {size : Nat} {text : String}
    (keeps : ∀ c ∈ text.toList, Keeps delimiters next escape c)
    (hidden : ∀ e ∈ escape, delimiters.isEscape e = false →
      ∀ piece ∈ checksWithin delimiters size text,
        delimiters.exposes e {} piece.toList = false) :
    readWithin next size text = readWithin delimiters size text := by
  induction size generalizing text with
  | zero => rfl
  | succ size ih =>
    simp only [checksWithin, List.forall_mem_append] at hidden
    have nothing : Pending.IsBehind [] .nothing := trivial
    have scanned : scan next text = scan delimiters text := by
      refine scanFrom_congr (fun c member => (keeps c member).opens) fun piece checked => ?_
      have inside : piece.toList <:+: text.toList := infix_of_mem_checksFrom nothing checked
      exact leavesOpen_congr (fun c member => keeps c (inside.subset member))
        fun e isEscape old => (hidden e isEscape old).1 piece checked
    rw [readWithin, readWithin, scanned]
    refine Scan.read_congr fun lexeme member inner listed => ih (fun c inInner => ?_)
      fun e isEscape old piece checked => (hidden e isEscape old).2 piece ?_
    · obtain ⟨front, after, whole, -⟩ :=
        ((standsIn_scan text).lexemes lexeme member).exists_append listed
      exact keeps c (by simp [whole, inInner])
    · exact List.mem_flatMap.mpr
        ⟨inner, List.mem_flatMap.mpr ⟨lexeme, member, listed⟩, checked⟩

/-- A literal that is registered changes nothing for texts without its delimiters, unless its escape
character is new and a check for open literals comes to it, outside of quotes, where it or the
character behind it has a part already. -/
theorem read_register {start : String} {close : Option String} {kind : LiteralKind}
    {escape : Option Char} (registered : delimiters.register start close kind escape = .ok next)
    {text : String}
    (foreign : ∀ c ∈ text.toList, c ∉ start.toList ∧ ∀ closing ∈ close, c ∉ closing.toList)
    (hidden : ∀ e ∈ escape, delimiters.isEscape e = false → ∀ piece ∈ checks delimiters text,
      delimiters.exposes e {} piece.toList = false) :
    read next text = read delimiters text :=
  readWithin_congr (fun c member => keeps_of_register registered (foreign c member)) hidden

private theorem foreign_of_not_mem {text : String} (lacks : '|' ∉ text.toList) :
    ∀ c ∈ text.toList, c ∉ "|".toList ∧ ∀ closing ∈ some "|", c ∉ closing.toList := by
  intro c member
  have differs : c ∉ "|".toList := by
    intro bar
    obtain rfl : c = '|' := List.mem_singleton.mp bar
    exact lacks member
  exact ⟨differs, fun closing same => Option.mem_some.mp same ▸ differs⟩

/-- Outside of lists and groups, inside quotes, and in front of a space. -/
theorem read_register_star : ∃ next,
    Delimiters.standard.register "|" (some "|") .string (some '*') = .ok next ∧
      read next "2 *(3) in ['*(', 2 * 4]" = .ok [.int 2, .operator (.binary .mul), .group [.int 3],
        .operator (.binary .contained),
        .list [[.str "*("], [.int 2, .operator (.binary .mul), .int 4]]] := by
  obtain ⟨next, registered⟩ : ∃ next,
      Delimiters.standard.register "|" (some "|") .string (some '*') = .ok next := ⟨_, rfl⟩
  have lacks : '|' ∉ "2 *(3) in ['*(', 2 * 4]".toList := by decide
  refine ⟨next, registered, (read_register registered (foreign_of_not_mem lacks) ?_).trans rfl⟩
  rintro _ ⟨⟩ -
  decide

/-- The star escapes the parenthesis behind it, which closes nothing any more. -/
theorem not_read_register : ¬∀ (delimiters next : Delimiters) (start : String)
    (close : Option String) (kind : LiteralKind) (escape : Option Char) (text : String),
    delimiters.register start close kind escape = .ok next →
    (∀ c ∈ text.toList, c ∉ start.toList ∧ ∀ closing ∈ close, c ∉ closing.toList) →
    read next text = read delimiters text := by
  intro conservative
  have registered : Delimiters.standard.register "|" (some "|") .string (some '*') =
      .ok (Delimiters.standard.store ⟨'|', '|', some '*', .quote⟩) := rfl
  have same := conservative _ _ _ _ _ _ "[2 *(3)]" registered
    (foreign_of_not_mem (by decide))
  have before : read .standard "[2 *(3)]" =
      .ok [.list [[.int 2, .operator (.binary .mul), .group [.int 3]]]] := rfl
  have after : read (Delimiters.standard.store ⟨'|', '|', some '*', .quote⟩) "[2 *(3)]" =
      .error ((SyntaxFault.unmatchedClose ')' "2 *(3)").placed 7) := rfl
  rw [before, after] at same
  cases same

end Expression

end Stencil
