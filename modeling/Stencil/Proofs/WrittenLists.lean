import Mathlib.Data.List.Forall2
import Stencil.Expression.Evaluation
import Stencil.Proofs.QuotedTexts

/-! # Written lists read back

The text of a list is a literal with the list as its value exactly if all texts in it keep their
backslashes, `Expression.evaluate_written_list`. Both directions follow the value. Items that are
read as they were written are cut out of the text one after the other. So the first text of the
other kind is read from its own opening quote on, and what is read there is another text, whatever
stands behind it.
-/

namespace Stencil

namespace Value

mutual

/-- Whether a value is nothing, a truth value, an integer that is not negative, a text with the
given property, or a list of such values. -/
def isMadeOf (texts : String → Bool) : Value → Bool
  | .null => true
  | .bool _ => true
  | .int n => 0 ≤ n.toInt
  | .float _ => false
  | .str text => texts text
  | .list items => areMadeOf texts items
  | .map _ => false

/-- Whether all values are made in this way. -/
def areMadeOf (texts : String → Bool) : List Value → Bool
  | [] => true
  | value :: rest => value.isMadeOf texts && areMadeOf texts rest

end

end Value

namespace Token

mutual

/-- The value of a literal: of a constant, a text, a number, or a list of single literals. -/
def literalValue? : Token → Option Value
  | .operator (.constant name) => some name.value
  | .str text => some (.str text)
  | .int n => some (.int n)
  | .float x => some (.float x)
  | .list items => (itemLiteralValues? items).map .list
  | _ => none

/-- The values of the items of a list of single literals. -/
def itemLiteralValues? : List (List Token) → Option (List Value)
  | [] => some []
  | [token] :: rest => do return (← token.literalValue?) :: (← itemLiteralValues? rest)
  | _ :: _ => none

end

private theorem itemLiteralValues?_eq_cons {items : List Expression} {value : Value}
    {values : List Value} (literals : itemLiteralValues? items = some (value :: values)) :
    ∃ token rest, items = [token] :: rest ∧ token.literalValue? = some value ∧
      itemLiteralValues? rest = some values := by
  rw [itemLiteralValues?.eq_def] at literals
  split at literals
  · cases literals
  · next token rest =>
    obtain ⟨first, firstValue, literals⟩ := Option.bind_eq_some_iff.mp literals
    obtain ⟨others, otherValues, same⟩ := Option.bind_eq_some_iff.mp literals
    cases same
    exact ⟨token, rest, rfl, firstValue, otherValues⟩
  · cases literals

end Token

namespace Expression

open Delimiters Lexeme

mutual

/-- A literal has its value in every context. -/
theorem evaluate_literal (context : Context) : ∀ (token : Token) (value : Value),
    token.literalValue? = some value → evaluate context [token] = .ok value
  | .operator (.constant _), _, literal => by
    cases literal
    rfl
  | .str _, _, literal => by
    cases literal
    rfl
  | .int _, _, literal => by
    cases literal
    rfl
  | .float _, _, literal => by
    cases literal
    rfl
  | .list items, _, literal => by
    obtain ⟨values, literals, rfl⟩ := Option.map_eq_some_iff.mp literal
    rw [evaluate, Evaluation.atoms, Evaluation.atom, itemValues_literals context items _ literals]
    rfl
  | .identifier _, _, literal => by cases literal
  | .operator .negation, _, literal => by cases literal
  | .operator (.binary _), _, literal => by cases literal
  | .group _, _, literal => by cases literal

private theorem itemValues_literals (context : Context) :
    ∀ (items : List Expression) (values : List Value),
    Token.itemLiteralValues? items = some values →
    Evaluation.itemValues context items = .ok values
  | [], _, literals => by
    cases literals
    rfl
  | [single] :: rest, _, literals => by
    obtain ⟨first, firstValue, literals⟩ := Option.bind_eq_some_iff.mp literals
    obtain ⟨others, otherValues, same⟩ := Option.bind_eq_some_iff.mp literals
    cases same
    have evaluated := evaluate_literal context single first firstValue
    rw [evaluate] at evaluated
    rw [Evaluation.itemValues, evaluated, itemValues_literals context rest others otherValues]
    rfl
  | [] :: _, _, literals => by cases literals
  | (_ :: _ :: _) :: _, _, literals => by cases literals

end

/-- A closed list has the items that have been cut out before, and the first one behind them stands
at the front of the text that is left. -/
theorem eq_list_of_closed? {done : List String} {item : String} {chars : List Char}
    {lexeme : Lexeme} (closed : closed? (.list bracket done item) chars = some lexeme) :
    ∃ texts, lexeme = .list texts ∧ done <+: texts ∧ ∀ first others,
      texts = done ++ first :: others → first.toList <+: item.toList ++ chars := by
  induction chars generalizing done item with
  | nil => cases closed
  | cons c chars ih =>
    have cutOut (first : String) (others : List String) (next : done ++ [item] <+:
        done ++ first :: others) : first.toList <+: item.toList ++ c :: chars := by
      rw [List.prefix_append_right_inj, List.cons_prefix_cons] at next
      exact next.1 ▸ List.prefix_append _ _
    rcases closed?_cons_eq_some closed with ⟨longer, pushed, closed⟩ | pushed
    · rcases Enclosed.pushListed_cases pushed with ⟨same, -⟩ | ⟨-, -, -, same⟩ | ⟨-, -, same⟩
      · cases same
        obtain ⟨texts, rfl, kept, next⟩ := ih closed
        refine ⟨texts, rfl, kept, fun first others split => ?_⟩
        have stands := next first others split
        rwa [String.toList_push, List.append_assoc] at stands
      · cases same
        obtain ⟨texts, rfl, kept, -⟩ := ih closed
        refine ⟨texts, rfl, (List.prefix_append done [item]).trans kept, ?_⟩
        exact fun first others split => cutOut first others (split ▸ kept)
      · cases same
    · rcases Enclosed.pushListed_cases pushed with ⟨same, -⟩ | ⟨-, -, -, same⟩ | ⟨-, -, same⟩
      · cases same
      · cases same
      · cases same
        refine ⟨_, rfl, ?_, fun first others split => ?_⟩
        · split
          · exact List.prefix_rfl
          · exact List.prefix_append done [item]
        · split at split
          · cases List.append_right_eq_self.mp split.symm
          · exact cutOut first others (split ▸ List.prefix_rfl)

/-- An item that can be read is kept as a whole. -/
private theorem closed?_item {item : String} (isItem : IsItem item) (done : List String)
    (chars : List Char) : closed? (.list bracket done "") (item.toList ++ chars) =
      closed? (.list bracket done item) chars := by
  obtain ⟨tokens, answer, -⟩ := isItem
  exact (grows_of_feed (feed_inner (push_list done) answer 0 0)).closed?_append chars

/-- A text that is read as a single literal with the given value. -/
def ReadsAs (text : List Char) (value : Value) : Prop :=
  ∃ literal position ended last lexemes,
    feed standard position .nothing text = .ok (ended, last) ∧ finish last = .ok lexemes ∧
      (ended ++ lexemes).mapM (Lexeme.read (read standard)) = .ok [literal] ∧
        literal.literalValue? = some value

private theorem readsAs_of_read {text : String} {literal : Token} {value : Value}
    (answer : read standard text = .ok [literal]) (isValue : literal.literalValue? = some value) :
    ReadsAs text.toList value := by
  obtain ⟨ended, last, lexemes, fed, finished, -, lexemesRead⟩ := exists_feed_of_read answer
  exact ⟨literal, 0, ended, last, lexemes, fed, finished, lexemesRead, isValue⟩

section ReadsAs

variable {text : List Char} {value : Value}

private theorem ReadsAs.ne_nil (reads : ReadsAs text value) : text ≠ [] := by
  rintro rfl
  obtain ⟨literal, position, ended, last, lexemes, fed, finished, lexemesRead, -⟩ := reads
  cases fed
  cases finished
  cases lexemesRead

private theorem readsAs_of_space (reads : ReadsAs (' ' :: text) value) : ReadsAs text value := by
  obtain ⟨literal, position, ended, last, lexemes, fed, finished, lexemesRead, isValue⟩ := reads
  have passed : offer standard position ' ' .nothing = .ok ([], .nothing) :=
    offer_nothing (begin_blank isBlank_space (by decide) position)
  rw [feed_cons_of_offer passed] at fed
  exact ⟨literal, position + 1, ended, last, lexemes, fed, finished, lexemesRead, isValue⟩

/-- A literal is closed where it stands in front of something else. -/
theorem ReadsAs.exists_closed? {opening : Char} {delimiter : Delimiter}
    (opens : standard.find? opening = some delimiter) {chars : List Char}
    (front : text <+: opening :: chars) (reads : ReadsAs text value) :
    ∃ lexeme literal, closed? (.ofDelimiter delimiter) chars = some lexeme ∧
      lexeme.read (read standard) = .ok literal ∧ literal.literalValue? = some value := by
  obtain ⟨first, inner, rfl⟩ := List.exists_cons_of_ne_nil reads.ne_nil
  obtain ⟨rfl, innerFront⟩ := List.cons_prefix_cons.mp front
  obtain ⟨more, rfl⟩ := innerFront
  obtain ⟨literal, position, ended, last, lexemes, fed, finished, lexemesRead, isValue⟩ := reads
  rw [feed_cons_of_find? opens] at fed
  obtain ⟨lexeme, others, closed, all⟩ := exists_closed?_of_feed fed finished
  rw [all] at lexemesRead
  obtain ⟨token, rest, tokenRead, -, same⟩ := Result.mapM_cons_eq_ok.mp lexemesRead
  cases same
  exact ⟨lexeme, literal, closed?_append closed more, tokenRead, isValue⟩

end ReadsAs

/-- Texts that are read as single literals with the given values. -/
def ReadAllAs (texts : List String) (values : List Value) : Prop :=
  ∃ items, texts.mapM (read standard) = .ok items ∧
    Token.itemLiteralValues? items = some values

private theorem readAllAs_cons {texts : List String} {value : Value} {values : List Value}
    (read : ReadAllAs texts (value :: values)) : ∃ first others, texts = first :: others ∧
      ReadsAs first.toList value ∧ ReadAllAs others values := by
  obtain ⟨items, itemsRead, literals⟩ := read
  obtain ⟨literal, rest, rfl, isValue, restLiterals⟩ := Token.itemLiteralValues?_eq_cons literals
  cases texts with
  | nil => cases itemsRead
  | cons first others =>
    obtain ⟨item, later, answer, othersRead, same⟩ := Result.mapM_cons_eq_ok.mp itemsRead
    cases same
    exact ⟨first, others, rfl, readsAs_of_read answer isValue, rest, othersRead, restLiterals⟩

section Completeness

/-- A text spells a literal with the given value. -/
def Writes (text : String) (value : Value) : Prop :=
  ∃ literal, Spells text.toList [literal] ∧ literal.literalValue? = some value

private theorem Writes.isItem {text : String} {value : Value} (written : Writes text value) :
    IsItem text := by
  obtain ⟨literal, spelled, -⟩ := written
  exact ⟨[literal], read_of_spells spelled, List.cons_ne_nil literal []⟩

private theorem Writes.isItem_space {text : String} {value : Value} (written : Writes text value) :
    IsItem (" " ++ text) := by
  obtain ⟨literal, spelled, -⟩ := written
  refine ⟨[literal], read_of_spells ?_, List.cons_ne_nil literal []⟩
  rw [String.toList_append]
  exact spells_space_cons spelled

private theorem writes_list {texts : List String} {values : List Value}
    (written : List.Forall₂ Writes texts values) :
    Writes ("[" ++ ", ".intercalate texts ++ "]") (.list values) := by
  suffices all : ∃ items,
      (∀ text ∈ texts, ∃ tokens, tokens ≠ [] ∧ Spells text.toList tokens) ∧
        texts.mapM (read standard) = .ok items ∧
          Token.itemLiteralValues? items = some values by
    obtain ⟨items, spelled, itemsRead, literals⟩ := all
    refine ⟨.list items, spells_list spelled itemsRead, ?_⟩
    exact Option.map_eq_some_iff.mpr ⟨values, literals, rfl⟩
  induction written with
  | nil => exact ⟨[], List.forall_mem_nil _, rfl, rfl⟩
  | @cons text value texts values written _ ih =>
    obtain ⟨literal, textSpelled, isValue⟩ := written
    obtain ⟨items, spelled, itemsRead, literals⟩ := ih
    refine ⟨[literal] :: items, List.forall_mem_cons.mpr ⟨?_, spelled⟩, ?_, ?_⟩
    · exact ⟨[literal], List.cons_ne_nil literal [], textSpelled⟩
    · exact Result.mapM_cons_eq_ok.mpr ⟨_, _, read_of_spells textSpelled, itemsRead, rfl⟩
    · rw [Token.itemLiteralValues?, isValue, literals]
      rfl

mutual

/-- The text of a value inside a list is a literal with that value. -/
theorem writes_nestedText : ∀ value : Value,
    value.isMadeOf (fun text => keepsBackslashes text.toList) = true →
    Writes (Value.nestedText value value.toText) value
  | .null, _ => ⟨_, spells_operator (.constant .nothing), rfl⟩
  | .bool true, _ => ⟨_, spells_operator (.constant .truth), rfl⟩
  | .bool false, _ => ⟨_, spells_operator (.constant .falsity), rfl⟩
  | .int n, made => by
    rw [Value.isMadeOf, decide_eq_true_eq] at made
    exact ⟨.int n, spells_int made, rfl⟩
  | .float _, made => by cases made
  | .str text, made => by
    rw [Value.isMadeOf] at made
    exact ⟨.str text, spells_quoted made, rfl⟩
  | .list items, made => by
    rw [Value.isMadeOf] at made
    change Writes (Value.list items).toText (.list items)
    rw [Value.toText]
    exact writes_list (write_itemTexts items made)
  | .map _, made => by cases made

/-- The texts of the items of a list are literals with those items. -/
theorem write_itemTexts : ∀ items : List Value,
    Value.areMadeOf (fun text => keepsBackslashes text.toList) items = true →
    List.Forall₂ Writes (Value.itemTexts items) items
  | [], _ => .nil
  | value :: rest, made => by
    rw [Value.areMadeOf, Bool.and_eq_true] at made
    rw [Value.itemTexts]
    exact .cons (writes_nestedText value made.1) (write_itemTexts rest made.2)

end

end Completeness

section Soundness

/-- What stands behind an item of a written list. -/
def behindItem (behind : List Char) : List Value → List Char
  | [] => ']' :: behind
  | value :: rest =>
    ',' :: ' ' :: ((Value.nestedText value value.toText).toList ++ behindItem behind rest)

private theorem toList_intercalate_itemTexts (behind : List Char) (value : Value)
    (rest : List Value) :
    (", ".intercalate (Value.itemTexts (value :: rest))).toList ++ ']' :: behind =
      (Value.nestedText value value.toText).toList ++ behindItem behind rest := by
  induction rest generalizing value with
  | nil => rw [Value.itemTexts, Value.itemTexts, String.intercalate_singleton, behindItem]
  | cons next rest ih =>
    rw [behindItem, ← ih next, Value.itemTexts, Value.itemTexts, String.intercalate_cons_cons]
    simp

private theorem toList_toText_list (behind : List Char) (value : Value) (rest : List Value) :
    (Value.list (value :: rest)).toText.toList ++ behind =
      '[' :: ((Value.nestedText value value.toText).toList ++ behindItem behind rest) := by
  rw [← toList_intercalate_itemTexts, Value.toText]
  simp

mutual

private theorem opensPlainly_nestedText : ∀ (value : Value) (behind : List Char),
    value.isMadeOf (fun _ => true) = true → OpensPlainly behind →
    OpensPlainly ((Value.nestedText value value.toText).toList ++ behind)
  | .null, _, _, plain => opensPlainly_append (by decide) plain
  | .bool true, _, _, plain => opensPlainly_append (by decide) plain
  | .bool false, _, _, plain => opensPlainly_append (by decide) plain
  | .int n, _, made, plain => by
    rw [Value.isMadeOf, decide_eq_true_eq] at made
    change OpensPlainly ((Value.int n).toText.toList ++ _)
    rw [Value.toText, Decimal.toList_integerText made]
    refine opensPlainly_append (fun escape => ?_) plain
    exact absurd (Decimal.isDigit_of_mem_digits _ _ escape) (by decide)
  | .float _, _, made, _ => by cases made
  | .str text, behind, _, _ => by
    rw [Value.nestedText, toList_quoted]
    exact .quote _
  | .list [], _, _, plain => opensPlainly_append (by decide) plain
  | .list (value :: rest), behind, made, plain => by
    change OpensPlainly ((Value.list (value :: rest)).toText.toList ++ behind)
    rw [Value.isMadeOf, Value.areMadeOf, Bool.and_eq_true] at made
    rw [toList_toText_list]
    exact .cons (by decide) (opensPlainly_nestedText value _ made.1
      (opensPlainly_behindItem rest behind made.2 plain))
  | .map _, _, made, _ => by cases made

private theorem opensPlainly_behindItem : ∀ (values : List Value) (behind : List Char),
    Value.areMadeOf (fun _ => true) values = true → OpensPlainly behind →
    OpensPlainly (behindItem behind values)
  | [], _, _, plain => .cons (by decide) plain
  | value :: rest, behind, made, plain => by
    rw [Value.areMadeOf, Bool.and_eq_true] at made
    exact .cons (by decide) (.cons (by decide) (opensPlainly_nestedText value _ made.1
      (opensPlainly_behindItem rest behind made.2 plain)))

end

mutual

/-- A value of which the text is read as a literal with that value has only texts that keep their
backslashes, whatever stands behind its text. -/
theorem isMadeOf_of_readsAs : ∀ (value : Value) (text behind : List Char),
    value.isMadeOf (fun _ => true) = true → OpensPlainly behind →
    text <+: (Value.nestedText value value.toText).toList ++ behind → ReadsAs text value →
    value.isMadeOf (fun text => keepsBackslashes text.toList) = true
  | .null, _, _, _, _, _, _ => rfl
  | .bool _, _, _, _, _, _, _ => rfl
  | .int _, _, _, made, _, _, _ => made
  | .float _, _, _, made, _, _, _ => made
  | .str text, _, behind, _, plain, front, reads => by
    rw [Value.nestedText, toList_quoted, List.cons_append, List.append_assoc,
      List.singleton_append] at front
    obtain ⟨lexeme, literal, closed, literalRead, isValue⟩ :=
      reads.exists_closed? find?_singleQuote front
    obtain ⟨answer, rfl, -⟩ := reading_of_closed? plain closed
    cases literalRead
    cases isValue
    exact keepsBackslashes_of_closed? plain closed
  | .list [], _, _, _, _, _, _ => rfl
  | .list (value :: rest), _, behind, made, plain, front, reads => by
    change _ <+: (Value.list (value :: rest)).toText.toList ++ behind at front
    rw [Value.isMadeOf, Value.areMadeOf, Bool.and_eq_true] at made
    rw [toList_toText_list] at front
    have opens : standard.find? '[' = some bracket := by decide
    obtain ⟨lexeme, literal, closed, literalRead, isValue⟩ := reads.exists_closed? opens front
    change closed? (.list bracket [] "") _ = some lexeme at closed
    obtain ⟨texts, rfl, -, next⟩ := eq_list_of_closed? closed
    obtain ⟨items, itemsRead, same⟩ := Result.bind_eq_ok.mp literalRead
    cases same
    obtain ⟨values, literals, same⟩ := Option.map_eq_some_iff.mp isValue
    cases same
    obtain ⟨first, others, rfl, firstReads, othersRead⟩ :=
      readAllAs_cons ⟨items, itemsRead, literals⟩
    have plainBehind := opensPlainly_behindItem rest behind made.2 plain
    have firstMade := isMadeOf_of_readsAs value first.toList _ made.1 plainBehind
      (next first others rfl) firstReads
    have isItem := (writes_nestedText value firstMade).isItem
    rw [closed?_item isItem] at closed
    rw [Value.isMadeOf, Value.areMadeOf, firstMade, Bool.true_and]
    exact areMadeOf_of_readAllAs rest [] _ first others behind made.2 plain isItem closed othersRead
  | .map _, _, _, made, _, _, _ => made

/-- Behind an item that is read as it was written, the next one is read from its first character. -/
theorem areMadeOf_of_readAllAs : ∀ (values : List Value) (done : List String)
    (item first : String) (texts : List String) (behind : List Char),
    Value.areMadeOf (fun _ => true) values = true → OpensPlainly behind → IsItem item →
    closed? (.list bracket done item) (behindItem behind values) =
      some (.list (done ++ first :: texts)) → ReadAllAs texts values →
    Value.areMadeOf (fun text => keepsBackslashes text.toList) values = true
  | [], _, _, _, _, _, _, _, _, _, _ => rfl
  | value :: rest, done, item, first, texts, behind, made, plain, isItem, closed, read => by
    rw [Value.areMadeOf, Bool.and_eq_true] at made
    rw [behindItem, closed?_cons_of_more (push_list_comma isItem)] at closed
    obtain ⟨_, same, kept, next⟩ := eq_list_of_closed? closed
    cases same
    obtain rfl : item = first := by
      rw [List.prefix_append_right_inj, List.cons_prefix_cons] at kept
      exact kept.1
    obtain ⟨head, others, rfl, headReads, othersRead⟩ := readAllAs_cons read
    have split : done ++ item :: head :: others = done ++ [item] ++ head :: others := by simp
    have front := next head others split
    rw [split] at closed
    generalize head.toList = text at front headReads
    obtain ⟨space, inner, rfl⟩ := List.exists_cons_of_ne_nil headReads.ne_nil
    obtain ⟨rfl, innerFront⟩ := List.cons_prefix_cons.mp front
    have plainBehind := opensPlainly_behindItem rest behind made.2 plain
    have valueMade := isMadeOf_of_readsAs value inner _ made.1 plainBehind innerFront
      (readsAs_of_space headReads)
    have isItemBehind := (writes_nestedText value valueMade).isItem_space
    have chars : ' ' :: ((Value.nestedText value value.toText).toList ++ behindItem behind rest) =
        (" " ++ Value.nestedText value value.toText).toList ++ behindItem behind rest := by
      simp
    rw [chars, closed?_item isItemBehind] at closed
    rw [Value.areMadeOf, valueMade, Bool.true_and]
    exact areMadeOf_of_readAllAs rest _ _ head others behind made.2 plain isItemBehind closed
      othersRead

end

/-- The text of a list that is made of texts, of nothing, truth values, integers that are not
negative and such lists is a literal with the list as its value exactly if every text in it keeps
its backslashes, and then the list is its value in every context. -/
theorem evaluate_written_list (items : List Value)
    (made : (Value.list items).isMadeOf (fun _ => true) = true) :
    ((∃ literal, read standard (Value.list items).toText = .ok [literal] ∧
        literal.literalValue? = some (.list items)) ↔
      (Value.list items).isMadeOf (fun text => keepsBackslashes text.toList) = true) ∧
    ((Value.list items).isMadeOf (fun text => keepsBackslashes text.toList) = true →
      ∀ context, (read standard (Value.list items).toText >>= fun expression =>
        expression.evaluate context) = .ok (.list items)) := by
  have written (keeps : (Value.list items).isMadeOf
      (fun text => keepsBackslashes text.toList) = true) :
      ∃ literal, read standard (Value.list items).toText = .ok [literal] ∧
        literal.literalValue? = some (.list items) := by
    obtain ⟨literal, spelled, isValue⟩ := writes_nestedText (.list items) keeps
    exact ⟨literal, read_of_spells spelled, isValue⟩
  refine ⟨⟨?_, written⟩, fun keeps context => ?_⟩
  · rintro ⟨literal, answer, isValue⟩
    exact isMadeOf_of_readsAs (.list items) _ [] made .nil (List.prefix_append _ [])
      (readsAs_of_read answer isValue)
  · obtain ⟨literal, answer, isValue⟩ := written keeps
    rw [answer, Result.ok_bind]
    exact evaluate_literal context literal _ isValue

/-- A list in a list, with quotes and with backslashes in front of other characters. -/
theorem evaluate_written_list_nested :
    let items : List Value := [.list [.str "it's", .str "a\\b"], .int 3, .bool true, .null]
    (Value.list items).toText = "[['it\\'s', 'a\\b'], 3, True, None]" ∧
      (read standard (Value.list items).toText >>= fun expression =>
        expression.evaluate { }) = .ok (.list items) := by
  intro items
  have made : (Value.list items).isMadeOf (fun _ => true) = true := by decide
  exact ⟨by decide +kernel, (evaluate_written_list items made).2 (by decide) { }⟩

/-- A list of a single backslash is written as a text that is not read, because the backslash
escapes the closing quote. -/
theorem not_evaluate_written_list :
    ¬∀ context items, (Value.list items).isMadeOf (fun _ => true) = true →
      ∃ value, (read standard (Value.list items).toText >>= fun expression =>
        expression.evaluate context) = .ok value ∧ value.equal (.list items) = true := by
  intro always
  obtain ⟨value, evaluated, -⟩ := always { } [.str "\\"] rfl
  have unclosed : read standard (Value.list [.str "\\"]).toText =
      .error (.malformed ⟨some 0, .unexpectedEnd "['\\']"⟩) := by
    decide +kernel
  rw [unclosed] at evaluated
  cases evaluated

end Soundness

end Expression

end Stencil
