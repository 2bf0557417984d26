import Mathlib.Data.List.Induction
import Mathlib.Tactic.Tauto
import Stencil.Loader.Directory
import Stencil.Proofs.Splitting

/-! # Files below a root

The loader of a root gives the text of a file exactly for the names that lead to it: relative names
without a part of two points, whose other parts, without empty ones and single points, are the names
on the way from the root to the file. For every other name it gives nothing, wherever there are
files outside of the root: `FileSystem.load_below_root`.
-/

namespace Stencil

namespace Path

/-- A part of a path that stands for itself. -/
structure IsName (part : String) : Prop where
  filled : part ≠ ""
  notPoint : part ≠ "."
  notPoints : part ≠ ".."
  noSlash : '/' ∉ part.toList

private theorem noSlash_of_mem_parts {path part : String} (member : part ∈ parts path) :
    '/' ∉ part.toList := by
  obtain ⟨chars, listed, rfl⟩ := List.mem_map.mp member
  rw [String.toList_ofList]
  exact not_mem_of_mem_splitOn listed

@[simp] theorem parts_append_slash (front back : String) :
    parts (front ++ "/" ++ back) = parts front ++ parts back := by
  have split : (front ++ "/" ++ back).toList = front.toList ++ '/' :: back.toList := by simp
  rw [parts, split, List.splitOn_append_cons_self, List.map_append]
  rfl

@[simp] theorem parts_empty : parts "" = [""] := rfl

/-- A slash at the end has an empty part behind it. -/
private theorem parts_append_slash_empty (front : String) :
    parts (front ++ "/") = parts front ++ [""] := by
  simpa [parts_empty] using parts_append_slash front ""

private theorem parts_of_noSlash {part : String} (noSlash : '/' ∉ part.toList) :
    parts part = [part] := by
  rw [parts, List.splitOn_eq_singleton noSlash, List.map_singleton, String.ofList_toList]

private theorem IsName.component? {part : String} (isName : IsName part) :
    component? part = some (.normal part) := by
  rw [Path.component?, if_neg (not_or.mpr ⟨isName.filled, isName.notPoint⟩),
    if_neg isName.notPoints]

private theorem isAbsolute_eq_false_of_noSlash {part : String} (noSlash : '/' ∉ part.toList) :
    isAbsolute part = false := by
  rw [isAbsolute, beq_eq_false_iff_ne]
  exact fun first => noSlash (List.mem_of_head? first)

/-- Pushing a name onto a path that is not empty puts it behind a slash, which is the one at the end
of the path if it has one. -/
private theorem push_cases {path : String} (filled : path ≠ "") {name : String}
    (isName : IsName name) :
    (∃ front, path = front ++ "/" ∧ push path name = front ++ "/" ++ name) ∨
      push path name = path ++ "/" ++ name := by
  rw [push, isAbsolute_eq_false_of_noSlash isName.noSlash, if_neg Bool.false_ne_true]
  split
  · next ends =>
    obtain ⟨front, split⟩ := List.getLast?_eq_some_iff.mp (ends.resolve_left filled)
    have path_eq : path = String.ofList front ++ "/" := by
      rw [← String.toList_inj, split]
      simp
    exact .inl ⟨String.ofList front, path_eq, by rw [path_eq]⟩
  · exact .inr rfl

private theorem isAbsolute_append {path : String} (filled : path ≠ "") (behind : String) :
    isAbsolute (path ++ behind) = isAbsolute path := by
  rw [isAbsolute, isAbsolute, String.toList_append]
  cases split : path.toList with
  | nil => exact (filled (String.toList_eq_nil_iff.mp split)).elim
  | cons first rest => rfl

end Path

namespace FileSystem

open Stencil.Path (IsName push)

/-- The parts of a name that lead to a place below a root. -/
structure LeadsTo (name : String) (parts : List String) : Prop where
  relative : name.toList.head? ≠ some '/'
  inside : ".." ∉ Path.parts name
  parts_eq : (Path.parts name).filter (fun part => part ≠ "" ∧ part ≠ ".") = parts

/-- Everything in a file system stands in a directory. -/
structure IsTree (files : FileSystem) : Prop where
  parent : ∀ place name, files.entryAt (place ++ [name]) ≠ none →
    files.entryAt place = some .directory

/-- A path leads to a directory. -/
structure IsRoot (files : FileSystem) (root : String) (place : List String) : Prop where
  located : files.locate? root = some place
  directory : files.entryAt place = some .directory

private theorem LeadsTo.isName {name : String} {parts : List String} (leads : LeadsTo name parts) :
    ∀ part ∈ parts, IsName part := by
  intro part member
  rw [← leads.parts_eq, List.mem_filter, decide_eq_true_eq] at member
  refine ⟨member.2.1, member.2.2, fun points => leads.inside (points ▸ member.1), ?_⟩
  exact Path.noSlash_of_mem_parts member.1

/-- Components behind the first one are names to push, unless a part of two points is among them. -/
private theorem foldlM_descend? (root : String) (parts : List String) :
    (parts.filterMap Path.component?).foldlM descend? root =
      if ".." ∈ parts then none
      else some ((parts.filter fun part => part ≠ "" ∧ part ≠ ".").foldl push root) := by
  induction parts generalizing root with
  | nil => rfl
  | cons part rest ih =>
    by_cases blank : part = "" ∨ part = "."
    · have skipped : Path.component? part = none := if_pos blank
      rw [List.filterMap_cons_none skipped, ih, List.filter_cons_of_neg (by simp; tauto)]
      rcases blank with rfl | rfl <;> simp
    · by_cases points : part = ".."
      · subst points
        simp [Path.component?, descend?]
      · have named : Path.component? part = some (.normal part) := by
          rw [Path.component?, if_neg blank, if_neg points]
        rw [List.filterMap_cons_some named, List.foldlM_cons]
        change (rest.filterMap Path.component?).foldlM descend? (push root part) = _
        rw [ih, List.filter_cons_of_pos (by simp; tauto)]
        simp [Ne.symm points]

private theorem foldlM_components {name : String} (relative : Path.isAbsolute name = false)
    (root : String) :
    (Path.components name).foldlM descend? root =
      ((Path.parts name).filterMap Path.component?).foldlM descend? root := by
  rw [Path.components, relative, if_neg Bool.false_ne_true]
  -- The current directory in front leads nowhere else.
  split <;> rfl

/-- A name is resolved exactly if it leads below the root, by pushing its parts onto the root. -/
theorem resolve?_eq_some {root name path : String} : resolve? root name = some path ↔
    ∃ parts, LeadsTo name parts ∧ path = parts.foldl push root := by
  rw [resolve?]
  by_cases absolute : name.toList.head? = some '/'
  · refine iff_of_false ?_ fun ⟨_, leads, _⟩ => leads.relative absolute
    have isAbsolute : Path.isAbsolute name = true := beq_iff_eq.mpr absolute
    simp [Path.components, isAbsolute, descend?]
  · rw [foldlM_components (beq_eq_false_iff_ne.mpr absolute), foldlM_descend?]
    constructor
    · intro resolved
      split at resolved
      · cases resolved
      · next inside => exact ⟨_, ⟨absolute, inside, rfl⟩, (Option.some.inj resolved).symm⟩
    · rintro ⟨parts, leads, rfl⟩
      rw [if_neg leads.inside, leads.parts_eq]

section Place

variable {files : FileSystem} {place base : List String} {root name : String} {parts : List String}

private theorem follow?_eq_some {part : String} {next : List String} :
    files.follow? place part = some next ↔
      files.entryAt place = some .directory ∧ next = enter place part := by
  rw [follow?]
  cases files.entryAt place with
  | none => simp
  | some entry => cases entry <;> simp [eq_comm]

private theorem enter_of_isName (isName : IsName name) : enter place name = place ++ [name] := by
  rw [enter, isName.component?]

/-- An empty part leads from a directory to itself. -/
private theorem follow?_empty_bind (part : String) :
    (files.follow? place "").bind (files.follow? · part) = files.follow? place part := by
  rw [follow?, follow?]
  cases here : files.entryAt place with
  | none => rfl
  | some entry =>
    cases entry with
    | file content => rfl
    | directory =>
      change files.follow? place part = _
      rw [follow?, here]

private theorem foldlM_follow?_concat (parts : List String) (part : String) :
    (parts ++ [part]).foldlM files.follow? place =
      (parts.foldlM files.follow? place).bind (files.follow? · part) := by
  rw [List.foldlM_append]
  refine congrArg (Option.bind _) (funext fun next => ?_)
  cases followed : files.follow? next part <;> simp [followed]

private theorem follow?_singleton (part : String) :
    files.follow? place part = [part].foldlM files.follow? place := by
  simp

/-- Pushing a name onto a path leads on by that name, from wherever the path leads. -/
theorem locate?_push (path : String) (isName : IsName name) :
    files.locate? (push path name) = (files.locate? path).bind (files.follow? · name) := by
  have single := Path.parts_of_noSlash isName.noSlash
  by_cases empty : path = ""
  · subst empty
    have pushed : push "" name = name := by
      rw [push, Path.isAbsolute_eq_false_of_noSlash isName.noSlash]
      simp
    rw [pushed, locate?, locate?, single, Path.parts_empty,
      Path.isAbsolute_eq_false_of_noSlash isName.noSlash,
      Path.isAbsolute_eq_false_of_noSlash List.not_mem_nil, ← follow?_singleton,
      ← follow?_singleton, follow?_empty_bind]
  · rcases Path.push_cases empty isName with ⟨front, path_eq, pushed⟩ | pushed
    · rw [pushed, locate?, ← path_eq, Path.isAbsolute_append empty, path_eq,
        Path.parts_append_slash, single, foldlM_follow?_concat, locate?,
        Path.parts_append_slash_empty, foldlM_follow?_concat, Option.bind_assoc]
      simp only [follow?_empty_bind]
    · rw [pushed, locate?, String.append_assoc, Path.isAbsolute_append empty, ← String.append_assoc,
        Path.parts_append_slash, single, foldlM_follow?_concat, locate?]

/-- Pushing names onto a root leads to their place below it. -/
theorem eq_append_of_locate? (located : files.locate? root = some base)
    (names : ∀ part ∈ parts, IsName part)
    (reached : files.locate? (parts.foldl push root) = some place) : place = base ++ parts := by
  induction parts using List.reverseRecOn generalizing place with
  | nil =>
    rw [List.foldl_nil, located] at reached
    rw [List.append_nil, Option.some.inj reached]
  | append_singleton parts name ih =>
    obtain ⟨names, isName⟩ := List.forall_mem_append.mp names
    replace isName := List.forall_mem_singleton.mp isName
    rw [List.foldl_append, List.foldl_cons, List.foldl_nil, locate?_push _ isName] at reached
    obtain ⟨above, reachedAbove, followed⟩ := Option.bind_eq_some_iff.mp reached
    obtain ⟨-, rfl⟩ := follow?_eq_some.mp followed
    rw [ih names reachedAbove, enter_of_isName isName, List.append_assoc]

/-- What stands below a root is located by pushing the names on the way to it. -/
theorem locate?_of_entryAt (tree : files.IsTree) (located : files.locate? root = some base)
    (names : ∀ part ∈ parts, IsName part) (present : files.entryAt (base ++ parts) ≠ none) :
    files.locate? (parts.foldl push root) = some (base ++ parts) := by
  induction parts using List.reverseRecOn with
  | nil => rwa [List.append_nil]
  | append_singleton parts name ih =>
    obtain ⟨names, isName⟩ := List.forall_mem_append.mp names
    replace isName := List.forall_mem_singleton.mp isName
    rw [← List.append_assoc] at present ⊢
    have above := tree.parent _ _ present
    rw [List.foldl_append, List.foldl_cons, List.foldl_nil, locate?_push _ isName,
      ih names (above ▸ Option.some_ne_none _), Option.bind_some, follow?_eq_some]
    exact ⟨above, (enter_of_isName isName).symm⟩

/-- Pushing names onto a root leads to a file exactly if it stands there below the root. -/
theorem content?_eq_some (tree : files.IsTree) (located : files.locate? root = some base)
    (names : ∀ part ∈ parts, IsName part) {content : ByteArray} :
    files.content? (parts.foldl push root) = some content ↔
      files.entryAt (base ++ parts) = some (.file content) := by
  constructor
  · intro read
    rw [content?] at read
    split at read
    · next content isFile =>
      cases read
      obtain ⟨place, reached, stands⟩ := Option.bind_eq_some_iff.mp isFile
      rwa [← eq_append_of_locate? located names reached]
    · cases read
  · intro stands
    rw [content?, locate?_of_entryAt tree located names (stands ▸ Option.some_ne_none _),
      Option.bind_some, stands]

end Place

private theorem fromUTF8?_eq_some {content : ByteArray} {text : String} :
    String.fromUTF8? content = some text ↔ content = text.toUTF8 := by
  rw [String.fromUTF8?]
  constructor
  · intro read
    split at read
    · cases read
      rfl
    · cases read
  · rintro rfl
    exact dif_pos text.isValidUTF8

/-- What is answered for a name below the place of a root: the text of the file that the name leads
to, a failure if that file is not UTF-8, and nothing for a name that leads to no file. -/
inductive Answers (files : FileSystem) (root : String) (base : List String) (name : String) :
    Result (Option String) → Prop
  | text {parts : List String} (text : String) (leads : LeadsTo name parts)
    (stands : files.entryAt (base ++ parts) = some (.file text.toUTF8)) :
    Answers files root base name (.ok (some text))
  | unreadable {parts : List String} {content : ByteArray} (leads : LeadsTo name parts)
    (stands : files.entryAt (base ++ parts) = some (.file content))
    (noText : ∀ text : String, content ≠ text.toUTF8) :
    Answers files root base name (.error (.unreadable (parts.foldl push root)
      "stream did not contain valid UTF-8"))
  | missing (nowhere : ∀ parts content, LeadsTo name parts →
      files.entryAt (base ++ parts) ≠ some (.file content)) :
    Answers files root base name (.ok none)

section Load

variable {files : FileSystem} {root name : String} {base : List String}

private theorem LeadsTo.unique {parts others : List String} (leads : LeadsTo name parts)
    (leads' : LeadsTo name others) : parts = others :=
  leads.parts_eq.symm.trans leads'.parts_eq

/-- There is one answer for a name, because there is one way that it leads. -/
theorem Answers.unique {answer other : Result (Option String)}
    (first : Answers files root base name answer) (second : Answers files root base name other) :
    answer = other := by
  have same {parts parts' : List String} {content content' : ByteArray}
      (leads : LeadsTo name parts) (stands : files.entryAt (base ++ parts) = some (.file content))
      (leads' : LeadsTo name parts')
      (stands' : files.entryAt (base ++ parts') = some (.file content')) : content = content' := by
    rw [leads.unique leads', stands'] at stands
    cases stands
    rfl
  cases first with
  | text text leads stands =>
    cases second with
    | text text' leads' stands' =>
      have read := fromUTF8?_eq_some.mpr (same leads stands leads' stands')
      rw [fromUTF8?_eq_some.mpr rfl] at read
      rw [Option.some.inj read]
    | unreadable leads' stands' noText =>
      exact (noText text (same leads' stands' leads stands)).elim
    | missing nowhere => exact (nowhere _ _ leads stands).elim
  | unreadable leads stands noText =>
    cases second with
    | text text leads' stands' => exact (noText text (same leads stands leads' stands')).elim
    | unreadable leads' stands' _ => rw [leads.unique leads']
    | missing nowhere => exact (nowhere _ _ leads stands).elim
  | missing nowhere =>
    cases second with
    | text text leads stands => exact (nowhere _ _ leads stands).elim
    | unreadable leads stands _ => exact (nowhere _ _ leads stands).elim
    | missing _ => rfl

/-- The loader of a root gives the answer. -/
theorem answers_load (tree : files.IsTree) (located : files.locate? root = some base)
    (name : String) : Answers files root base name (files.load root name) := by
  rw [load]
  cases resolved : resolve? root name with
  | none =>
    refine .missing fun parts content leads _ => ?_
    rw [resolve?_eq_some.mpr ⟨parts, leads, rfl⟩] at resolved
    cases resolved
  | some path =>
    obtain ⟨parts, leads, rfl⟩ := resolve?_eq_some.mp resolved
    have stands {content : ByteArray} := @content?_eq_some _ _ _ _ tree located leads.isName content
    dsimp only
    cases read : files.content? (parts.foldl push root) with
    | none =>
      refine .missing fun others content leads' stands' => ?_
      rw [← leads.unique leads', ← stands, read] at stands'
      cases stands'
    | some content =>
      dsimp only
      cases read' : String.fromUTF8? content with
      | none =>
        refine .unreadable leads (stands.mp read) fun text same => ?_
        rw [fromUTF8?_eq_some.mpr same] at read'
        cases read'
      | some text => exact .text text leads (fromUTF8?_eq_some.mp read' ▸ stands.mp read)

end Load

section Files

variable {files : List (List String × ByteArray)} {place : List String}

private theorem exists_of_entryAt_ofFiles (present : (ofFiles files).entryAt place ≠ none) :
    place = [] ∨ ∃ file ∈ files, place <+: file.1 := by
  rw [ofFiles] at present
  dsimp only at present
  split at present
  · next file found =>
    have isPlace : file.1 = place := by simpa using List.find?_some found
    exact .inr ⟨file, List.mem_of_find?_eq_some found, isPlace ▸ List.prefix_rfl⟩
  · split at present
    · next leads =>
      rw [List.any_eq_true] at leads
      simpa [List.isPrefixOf_iff_prefix] using leads
    · exact (present rfl).elim

private theorem entryAt_ofFiles_of_prefix {file : List String × ByteArray} (member : file ∈ files)
    (leads : place <+: file.1) (noFile : ∀ other ∈ files, other.1 ≠ place) :
    (ofFiles files).entryAt place = some .directory := by
  have notFound : files.find? (fun file => file.1 == place) = none := by
    rw [List.find?_eq_none]
    intro other member
    simpa using noFile other member
  have passes : files.any (fun file => place.isPrefixOf file.1) = true :=
    List.any_eq_true.mpr ⟨file, member, List.isPrefixOf_iff_prefix.mpr leads⟩
  rw [ofFiles]
  dsimp only
  rw [notFound]
  dsimp only
  rw [if_pos (.inr passes)]

/-- Files none of which stands below another one make a tree. -/
theorem isTree_ofFiles (apart : ∀ upper ∈ files, ∀ lower ∈ files,
    upper.1 <+: lower.1 → upper.1 = lower.1) : (ofFiles files).IsTree := by
  constructor
  intro place name present
  rcases exists_of_entryAt_ofFiles present with impossible | ⟨file, member, leads⟩
  · simp at impossible
  · have above : place <+: file.1 := (List.prefix_append place [name]).trans leads
    refine entryAt_ofFiles_of_prefix member above fun other member' same => ?_
    have equal := apart other member' file member (same ▸ above)
    have lengths := leads.length_le
    rw [← equal, same, List.length_append, List.length_singleton] at lengths
    exact Nat.not_succ_le_self _ lengths

end Files

/-- For every name the loader of a root gives the text of the file below the root that the name
leads to, whatever else there is in the file system; it fails if that file is not UTF-8, and gives
nothing if the name leads to no file. So it does for absolute names, names with a part of two
points, the empty name and the names of directories. -/
theorem load_below_root {files : FileSystem} (tree : files.IsTree) {root : String}
    {base : List String} (isRoot : files.IsRoot root base) (name : String) :
    (∀ answer, files.load root name = answer ↔ Answers files root base name answer) ∧
      (name.toList.head? = some '/' ∨ ".." ∈ Path.parts name ∨ name = "" ∨
          (∃ parts, LeadsTo name parts ∧ files.entryAt (base ++ parts) = some .directory) →
        files.load root name = .ok none) := by
  have answers := answers_load tree isRoot.located name
  have isAnswer (answer : Result (Option String)) :
      files.load root name = answer ↔ Answers files root base name answer :=
    ⟨fun same => same ▸ answers, answers.unique⟩
  refine ⟨isAnswer, fun special => (isAnswer _).mpr (.missing fun parts content leads stands => ?_)⟩
  rcases special with absolute | points | rfl | ⟨others, leads', isDirectory⟩
  · exact leads.relative absolute
  · exact leads.inside points
  · have isEmpty : parts = [] := leads.parts_eq.symm
    rw [isEmpty, List.append_nil, isRoot.directory] at stands
    cases stands
  · rw [leads.unique leads', isDirectory] at stands
    cases stands

/-- A file below the root, and one beside it. -/
theorem load_below_root_site :
    let files := ofFiles [(["site", "pages", "index"], "hi".toUTF8), (["secret"], "no".toUTF8)]
    files.load "site/" "./pages//index" = .ok (some "hi") ∧
      files.load "site/" "../secret" = .ok none := by
  intro files
  have tree : files.IsTree := isTree_ofFiles (by decide)
  have isRoot : files.IsRoot "site/" ["site"] := ⟨by decide, rfl⟩
  have leads : LeadsTo "./pages//index" ["pages", "index"] := ⟨by decide, by decide, by decide⟩
  constructor
  · exact ((load_below_root tree isRoot _).1 _).mpr (.text "hi" leads rfl)
  · exact (load_below_root tree isRoot _).2 (.inr (.inl (by decide)))

/-- The name of a directory gives nothing. -/
example : (Directory.mk "site" [(["pages", "index"], "hi".toUTF8)]).load "pages" = .ok none := by
  rfl

end FileSystem

end Stencil
