import Mathlib.Data.List.Forall2
import Stencil.Engine
import Stencil.Proofs.Separation

/-! # Brackets around texts

A group is read by reading the text between its parentheses, and a list by reading the texts
between its commas, `Expression.read_bracketed`. The scan finds the closing character and the
commas without reading the inner texts, so this rests on what `leavesOpen` says of them.
-/

namespace Stencil.Expression

open Delimiters Lexeme

section Groups

/-- An open group stays open, or ends at a closing character behind its body. -/
private theorem feed_group_cases {position start : Nat} {front : String} {rest : List Char}
    {ended : List Lexeme} {last : Pending}
    (fed : feed standard position (.enclosed (.group parenthesis front) start) rest =
      .ok (ended, last)) :
    (ended = [] ∧ last = .enclosed (.group parenthesis (front ++ String.ofList rest)) start) ∨
      ∃ inside behind place later, rest = inside ++ ')' :: behind ∧
        ended = .group (front ++ String.ofList inside) :: later ∧
        feed standard place .nothing behind = .ok (later, last) := by
  induction rest generalizing position front ended with
  | nil =>
    cases fed
    exact .inl ⟨rfl, by simp⟩
  | cons c rest ih =>
    obtain ⟨⟨first, next⟩, offered, fed⟩ := Result.bind_eq_ok.mp fed
    obtain ⟨⟨later, last⟩, restFed, same⟩ := Result.bind_eq_ok.mp fed
    cases same
    rw [offer_enclosed] at offered
    split at offered
    · next longer pushed =>
      cases offered
      rcases Enclosed.pushGrouped_cases pushed with ⟨grown, -⟩ | ⟨-, -, impossible⟩
      · cases grown
        rw [append_ofList_cons]
        rcases ih restFed with ⟨rfl, stays⟩ | ⟨inside, behind, place, others, rfl, rfl, behindFed⟩
        · exact .inl ⟨rfl, stays⟩
        · refine .inr ⟨c :: inside, behind, place, others, rfl, ?_, behindFed⟩
          rw [append_ofList_cons]
          rfl
      · cases impossible
    · next lexeme pushed =>
      cases offered
      rcases Enclosed.pushGrouped_cases pushed with ⟨impossible, -⟩ | ⟨-, rfl, closed⟩
      · cases impossible
      · cases closed
        refine .inr ⟨[], rest, position + 1, later, rfl, ?_, restFed⟩
        rw [String.ofList_nil, String.append_empty]
        rfl
    · cases offered

/-- A text between parentheses that is read as one group is read on its own. -/
private theorem read_of_read_group {text : String} {expression : Expression}
    (answer : read standard ("(" ++ text ++ ")") = .ok [.group expression]) :
    read standard text = .ok expression := by
  obtain ⟨ended, last, lexemes, fed, finished, -, lexemesRead⟩ := exists_feed_of_read answer
  have chars : ("(" ++ text ++ ")").toList = '(' :: (text.toList ++ [')']) := by simp
  rw [chars, feed_parenthesis] at fed
  rcases feed_group_cases fed with ⟨-, rfl⟩ | ⟨inside, behind, place, later, split, rfl, behindFed⟩
  · cases finished
  · -- The group is the only lexeme, so that only blank characters can stand behind it.
    obtain ⟨token, others, groupRead, othersRead, same⟩ := Result.mapM_cons_eq_ok.mp lexemesRead
    obtain ⟨rfl, rfl⟩ := List.cons.inj same
    obtain ⟨rfl, rfl⟩ := List.append_eq_nil_iff.mp (Result.eq_nil_of_mapM_eq_ok othersRead)
    rw [eq_nothing_of_finish finished] at behindFed
    obtain ⟨-, blank⟩ := isBlankText_of_feed behindFed
    rcases List.eq_nil_or_concat behind with rfl | ⟨front, c, rfl⟩
    · obtain rfl : text.toList = inside := List.append_cancel_right split
      rw [String.empty_append, String.ofList_toList] at groupRead
      obtain ⟨body, bodyRead, whole⟩ := Result.bind_eq_ok.mp groupRead
      cases whole
      exact bodyRead
    · have whole : text.toList ++ [')'] = (inside ++ ')' :: front) ++ [c] := by
        rw [split]
        simp
      obtain ⟨-, closing⟩ := List.append_inj' whole rfl
      obtain rfl : ')' = c := List.head_eq_of_cons_eq closing
      have isBlank := List.all_eq_true.mp blank ')' (by simp)
      exact absurd isBlank (by decide)

/-- A group is read exactly if its body is. -/
theorem read_group_iff {text : String} {expression : Expression} :
    read standard ("(" ++ text ++ ")") = .ok [.group expression] ↔
      read standard text = .ok expression :=
  ⟨read_of_read_group, fun answer => read_of_spells (spells_group (spells_of_read answer))⟩

/-- A group has the value of its body. -/
theorem evaluate_group (context : Context) (expression : Expression) :
    evaluate context [.group expression] = evaluate context expression := by
  have atoms : Evaluation.atoms context [.group expression] =
      [.operand (evaluate context expression)] := by
    rw [Evaluation.atoms, Evaluation.atoms, Evaluation.atom, evaluate]
  rw [evaluate, atoms]
  cases evaluate context expression <;> rfl

end Groups

section Lists

private theorem forall_isItem {texts : List String} {items : List Expression}
    (itemsRead : List.Forall₂ (fun text item => read standard text = .ok item ∧ item ≠ [])
      texts items) : (∀ text ∈ texts, IsItem text) ∧ texts.mapM (read standard) = .ok items := by
  induction itemsRead with
  | nil => exact ⟨List.forall_mem_nil _, rfl⟩
  | cons first _ ih =>
    obtain ⟨answer, filled⟩ := first
    exact ⟨List.forall_mem_cons.mpr ⟨⟨_, answer, filled⟩, ih.1⟩,
      Result.mapM_cons_eq_ok.mpr ⟨_, _, answer, ih.2, rfl⟩⟩

private theorem commaText_eq {texts : List String} (filled : texts ≠ []) :
    commaText texts = (",".intercalate texts).toList ++ [','] := by
  rcases List.eq_nil_or_concat texts with rfl | ⟨items, last, rfl⟩
  · cases filled rfl
  · rw [List.concat_eq_append, toList_intercalate_append items (List.cons_ne_nil last []),
      String.intercalate_singleton, commaText, commaText, List.flatMap_append]
    simp

/-- A comma may stand behind the last item. -/
theorem spells_commas {texts : List String} {items : List Expression} (filled : texts ≠ [])
    (areItems : ∀ text ∈ texts, IsItem text) (itemsRead : texts.mapM (read standard) = .ok items) :
    Spells ("[" ++ ",".intercalate texts ++ ",]").toList [.list items] := by
  have chars : ("[" ++ ",".intercalate texts ++ ",]").toList =
      '[' :: (commaText texts ++ [']']) := by
    rw [commaText_eq filled]
    simp
  have closed (position : Nat) :
      feed standard position .nothing ("[" ++ ",".intercalate texts ++ ",]").toList =
        .ok ([.list texts], .nothing) := by
    rw [chars, feed_bracket, feed_append, feed_commaText [] areItems,
      Result.ok_bind, List.nil_append, feed_last_of_push (push_list_closeBlank texts)]
    rfl
  refine spells_enclosed closed ?_
  rw [Lexeme.read, itemsRead]
  rfl

private theorem push_list_blank {items : List String} {blank : String}
    (isBlank : Enclosed.isBlankText blank = true) :
    (Enclosed.list bracket items blank).push standard ',' = .error .emptyListItem := by
  have checked : standard.leavesOpen blank = .ok false :=
    leavesOpen_of_read (read_of_spells (spells_of_isBlankText isBlank))
  rw [Enclosed.push, Enclosed.pushListed, if_pos (.inl rfl), checked, Result.ok_bind, isBlank]
  rfl

/-- In front of a comma no item may be blank. -/
theorem read_blank_item {before after : List String} {blank : String}
    (areItems : ∀ text ∈ before, IsItem text) (isBlank : Enclosed.isBlankText blank = true)
    (filled : after ≠ []) (closing : String) :
    read standard ("[" ++ ",".intercalate (before ++ blank :: after) ++ closing) =
      .error (SyntaxFault.emptyListItem.placed
        ("[" ++ ",".intercalate (before ++ [blank])).length) := by
  have blankRead := read_of_spells (spells_of_isBlankText isBlank)
  have front : ("[" ++ ",".intercalate (before ++ [blank])).toList =
      '[' :: (commaText before ++ blank.toList) := by
    rw [String.toList_append, toList_intercalate_append before (List.cons_ne_nil blank []),
      String.intercalate_singleton]
    rfl
  have whole : ("[" ++ ",".intercalate (before ++ blank :: after) ++ closing).toList =
      ("[" ++ ",".intercalate (before ++ [blank])).toList ++
        ',' :: ((",".intercalate after).toList ++ closing.toList) := by
    rw [front, String.toList_append, String.toList_append,
      toList_intercalate_append before (List.cons_ne_nil blank after),
      String.intercalate_cons_of_ne_nil filled]
    simp
  have fed : feed standard 0 .nothing ("[" ++ ",".intercalate (before ++ [blank])).toList =
      .ok ([], .enclosed (.list bracket before blank) 0) := by
    rw [front, feed_bracket, feed_append, feed_commaText [] areItems,
      Result.ok_bind, List.nil_append, feed_inner (push_list before) blankRead]
    rfl
  rw [read_eq, scan, whole, scanFrom_append fed, scanFrom, offer_enclosed,
    push_list_blank isBlank, String.length_toList, Nat.zero_add]
  rfl

/-- Bracketing is compositional. A text is the body of a group exactly if it is read, and the group
has its value. Texts that are read are the items of a list, with or without a comma behind the
last one. A blank text in front of a comma is no item. -/
theorem read_bracketed :
    (∀ text expression, read standard ("(" ++ text ++ ")") = .ok [.group expression] ↔
      read standard text = .ok expression) ∧
    (∀ (engine : Engine) context text expression, engine.delimiters = standard →
      engine.read text = .ok expression →
      engine.evaluate context ("(" ++ text ++ ")") = engine.evaluate context text) ∧
    (∀ texts items,
      List.Forall₂ (fun text item => read standard text = .ok item ∧ item ≠ []) texts items →
      read standard ("[" ++ ",".intercalate texts ++ "]") = .ok [.list items] ∧
        (texts ≠ [] →
          read standard ("[" ++ ",".intercalate texts ++ ",]") = .ok [.list items])) ∧
    (∀ before blank after closing, (∀ text ∈ before, IsItem text) →
      Enclosed.isBlankText blank = true → after ≠ [] →
      read standard ("[" ++ ",".intercalate (before ++ blank :: after) ++ closing) =
        .error (SyntaxFault.emptyListItem.placed
          ("[" ++ ",".intercalate (before ++ [blank])).length)) := by
  refine ⟨fun text expression => read_group_iff, ?_, ?_, ?_⟩
  · intro engine context text expression built answer
    have grouped : engine.read ("(" ++ text ++ ")") = .ok [.group expression] := by
      rw [Engine.read, built] at answer ⊢
      exact read_group_iff.mpr answer
    rw [Engine.evaluate, Engine.evaluate, grouped, answer]
    exact evaluate_group context expression
  · intro texts items itemsRead
    obtain ⟨areItems, allRead⟩ := forall_isItem itemsRead
    exact ⟨read_of_spells (spells_brackets areItems allRead),
      fun filled => read_of_spells (spells_commas filled areItems allRead)⟩
  · intro before blank after closing areItems isBlank filled
    exact read_blank_item areItems isBlank filled closing

/-- Parentheses and commas inside quotes, and a blank item behind a group. -/
theorem read_bracketed_quotes :
    read standard ("(" ++ "')'" ++ ")") = .ok [.group [.str ")"]] ∧
      (∀ context, Engine.evaluate { } context ("(" ++ "')'" ++ ")") =
        Engine.evaluate { } context "')'") ∧
      read standard ("[" ++ ",".intercalate ["(1)", "'],'"] ++ "]") =
        .ok [.list [[.group [.int 1]], [.str "],"]]] ∧
      read standard ("[" ++ ",".intercalate ["(1)", "'],'"] ++ ",]") =
        .ok [.list [[.group [.int 1]], [.str "],"]]] ∧
      read standard ("[" ++ ",".intercalate (["(1)"] ++ " " :: ["x"]) ++ "]") =
        .error (SyntaxFault.emptyListItem.placed 6) := by
  have quoted : read standard "')'" = .ok [.str ")"] := rfl
  have group : read standard "(1)" = .ok [.group [.int 1]] := rfl
  have comma : read standard "'],'" = .ok [.str "],"] := rfl
  have items : List.Forall₂ (fun text item => read standard text = .ok item ∧ item ≠ [])
      ["(1)", "'],'"] [[.group [.int 1]], [.str "],"]] :=
    .cons ⟨group, List.cons_ne_nil _ _⟩ (.cons ⟨comma, List.cons_ne_nil _ _⟩ .nil)
  have first : ∀ text ∈ ["(1)"], IsItem text := by
    simpa using ⟨_, group, List.cons_ne_nil _ _⟩
  have position : ("[" ++ ",".intercalate (["(1)"] ++ [" "])).length = 6 := by decide
  obtain ⟨groups, values, lists, blanks⟩ := read_bracketed
  refine ⟨(groups _ _).mpr quoted, fun context => values _ context _ _ rfl quoted,
    (lists _ _ items).1, (lists _ _ items).2 (List.cons_ne_nil _ _), ?_⟩
  rw [← position]
  exact blanks ["(1)"] " " ["x"] "]" first (by decide) (List.cons_ne_nil _ _)

end Lists

end Stencil.Expression
