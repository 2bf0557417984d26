import Mathlib.Data.List.Nodup
import Stencil.Proofs.FirstDefinitions

/-! # Literals are registered whole

A call that registers literals is accepted exactly if it is a definition of literals whose opening
characters are free, `Registration.IsDefinition`. Then it does what registering its pairs of
characters one at a time does, in any order, because entries with different keys can be stored in
any order, `Table.insertEntry_comm`. Otherwise nothing changes, and a clash is reported for the
first opening character from the left that is not free: `Registration.perform_literal`.
-/

namespace Stencil

open Result

namespace Table

variable {κ υ : Type} [DecidableEq κ] [LT κ] [DecidableLT κ] [Std.Asymm (α := κ) (· < ·)]
  [Trans (α := κ) (· < ·) (· < ·) (· < ·)]

private theorem insertEntry_comm_of_lt {key other : κ} (less : key < other) (value second : υ)
    (entries : List (κ × υ)) :
    insertEntry key value (insertEntry other second entries) =
      insertEntry other second (insertEntry key value entries) := by
  have notGreater : ¬other < key := Std.Asymm.asymm _ _ less
  have differs : key ≠ other := fun same => notGreater (same ▸ less)
  induction entries with
  | nil => simp [insertEntry, less, notGreater, differs, differs.symm]
  | cons head rest ih =>
    obtain ⟨name, old⟩ := head
    by_cases isOther : other = name
    · subst isOther
      simp [insertEntry, less, notGreater, differs, differs.symm]
    · by_cases before : other < name
      · have first : key < name := Trans.trans less before
        have notName : key ≠ name := fun same =>
          Std.Asymm.asymm _ _ first (same ▸ first)
        simp [insertEntry, less, notGreater, differs, differs.symm, isOther, before, first, notName]
      · by_cases isKey : key = name
        · subst isKey
          simp [insertEntry, notGreater, differs.symm]
        · by_cases first : key < name
          · simp [insertEntry, notGreater, differs.symm, isOther, before, isKey, first]
          · simp [insertEntry, isOther, before, isKey, first, ih]

/-- Entries with different keys can be stored in any order. -/
theorem insertEntry_comm [Std.Trichotomous (α := κ) (· < ·)] {key other : κ}
    (differs : key ≠ other) (value second : υ) (entries : List (κ × υ)) :
    insertEntry key value (insertEntry other second entries) =
      insertEntry other second (insertEntry key value entries) := by
  by_cases less : key < other
  · exact insertEntry_comm_of_lt less value second entries
  · have greater : other < key := by
      by_contra notGreater
      exact differs (Std.Trichotomous.trichotomous _ _ less notGreater)
    exact (insertEntry_comm_of_lt greater second value entries).symm

end Table

namespace Delimiters

private theorem store_comm {first second : Delimiter} (differs : first.start ≠ second.start)
    (delimiters : Delimiters) :
    (delimiters.store first).store second = (delimiters.store second).store first :=
  congrArg (fun entries => (⟨⟨entries⟩⟩ : Delimiters))
    (Table.insertEntry_comm differs.symm second first delimiters.table.entries)

/-- Delimiters of different characters can be stored in any order. -/
theorem foldl_store_of_perm {defined order : List Delimiter}
    (nodup : (defined.map Delimiter.start).Nodup) (perm : order.Perm defined)
    (delimiters : Delimiters) : order.foldl store delimiters = defined.foldl store delimiters := by
  refine (perm.symm.foldl_eq' (fun first member second member' current => ?_) delimiters).symm
  by_cases same : first.start = second.start
  · rw [List.inj_on_of_nodup_map nodup member member' same]
  · exact store_comm same current

private theorem foldlM_add_eq_ok {defined : List Delimiter} {delimiters : Delimiters}
    (nodup : (defined.map Delimiter.start).Nodup)
    (free : ∀ delimiter ∈ defined, delimiters.find? delimiter.start = none) :
    defined.foldlM add delimiters = .ok (defined.foldl store delimiters) := by
  induction defined generalizing delimiters with
  | nil => rfl
  | cons delimiter rest ih =>
    obtain ⟨notLater, nodup⟩ := List.nodup_cons.mp nodup
    obtain ⟨isFree, free⟩ := List.forall_mem_cons.mp free
    rw [List.foldlM_cons, add_eq_ok.mpr ⟨isFree, rfl⟩, ok_bind]
    refine ih nodup fun other member => ?_
    rw [find?_store, if_neg, free other member]
    intro same
    exact notLater (same ▸ List.mem_map_of_mem member)

/-- A character of a list is the first one that is in use or repeats an earlier one. -/
def FirstClash (delimiters : Delimiters) (characters : List Char) (c : Char) : Prop :=
  ∃ front behind, characters = front ++ c :: behind ∧ front.Nodup ∧
    (∀ earlier ∈ front, delimiters.find? earlier = none) ∧
    (c ∈ front ∨ delimiters.find? c ≠ none)

private theorem firstClash_cons_of_used {delimiters : Delimiters} {first c : Char}
    {rest : List Char} (used : delimiters.find? first ≠ none) :
    FirstClash delimiters (first :: rest) c ↔ c = first := by
  constructor
  · rintro ⟨front, behind, split, -, free, -⟩
    cases front with
    | nil => exact (List.cons.inj split).1.symm
    | cons head front =>
      obtain ⟨rfl, -⟩ := List.cons.inj split
      exact (used (free _ List.mem_cons_self)).elim
  · rintro rfl
    exact ⟨[], rest, rfl, .nil, nofun, .inr used⟩

private theorem firstClash_cons_of_free {delimiters : Delimiters} {delimiter : Delimiter} {c : Char}
    {rest : List Char} (free : delimiters.find? delimiter.start = none) :
    FirstClash delimiters (delimiter.start :: rest) c ↔
      FirstClash (delimiters.store delimiter) rest c := by
  have stored (character : Char) : (delimiters.store delimiter).find? character = none ↔
      character ≠ delimiter.start ∧ delimiters.find? character = none := by
    rw [find?_store]
    split <;> simp_all
  constructor
  · rintro ⟨front, behind, split, nodup, isFree, clash⟩
    cases front with
    | nil =>
      obtain ⟨rfl, -⟩ := List.cons.inj split
      rcases clash with member | used
      · cases member
      · exact (used free).elim
    | cons head front =>
      obtain ⟨rfl, rfl⟩ := List.cons.inj split
      obtain ⟨notLater, nodup⟩ := List.nodup_cons.mp nodup
      refine ⟨front, behind, rfl, nodup, fun earlier member => (stored earlier).mpr ⟨?_, ?_⟩, ?_⟩
      · exact fun same => notLater (same ▸ member)
      · exact isFree earlier (List.mem_cons_of_mem _ member)
      · rw [Ne, stored, not_and_or, not_not]
        rcases clash with member | used
        · rcases List.mem_cons.mp member with same | member
          · exact .inr (.inl same)
          · exact .inl member
        · exact .inr (.inr used)
  · rintro ⟨front, behind, rfl, nodup, isFree, clash⟩
    refine ⟨delimiter.start :: front, behind, rfl, ?_, ?_, ?_⟩
    · refine List.nodup_cons.mpr ⟨fun member => ?_, nodup⟩
      exact ((stored _).mp (isFree _ member)).1 rfl
    · exact List.forall_mem_cons.mpr
        ⟨free, fun earlier member => ((stored earlier).mp (isFree earlier member)).2⟩
    · rw [Ne, stored, not_and_or, not_not] at clash
      rcases clash with member | same | used
      · exact .inl (List.mem_cons_of_mem _ member)
      · exact .inl (same ▸ List.mem_cons_self)
      · exact .inr used

/-- Adding delimiters fails for the first character that is not free. -/
theorem foldlM_add_eq_error {defined : List Delimiter} {delimiters : Delimiters} {error : Error} :
    defined.foldlM add delimiters = .error error ↔
      ∃ c, error = .characterInUse c ∧
        FirstClash delimiters (defined.map Delimiter.start) c := by
  induction defined generalizing delimiters with
  | nil =>
    refine iff_of_false nofun ?_
    rintro ⟨c, -, front, behind, split, -⟩
    cases front <;> cases split
  | cons delimiter rest ih =>
    rw [List.foldlM_cons, List.map_cons]
    cases found : delimiters.find? delimiter.start with
    | none =>
      rw [add_eq_ok.mpr ⟨found, rfl⟩, ok_bind, ih]
      simp only [firstClash_cons_of_free found]
    | some other =>
      have used : delimiters.find? delimiter.start ≠ none := found ▸ Option.some_ne_none other
      have refused : delimiters.add delimiter = .error (.characterInUse delimiter.start) := by
        rw [find?] at found
        rw [add, Table.contains, found]
        rfl
      rw [refused, error_bind]
      simp only [firstClash_cons_of_used used]
      constructor
      · intro same
        cases same
        exact ⟨_, rfl, rfl⟩
      · rintro ⟨c, rfl, rfl⟩
        rfl

end Delimiters

namespace Registration

open Delimiters (store add foldlM_add_eq_ok foldlM_add_eq_error foldl_store_of_perm FirstClash)

/-- The delimiter of a pair of characters. -/
def delimiterOf (escape : Option Char) (enclosure : Enclosure) (pair : Char × Char) : Delimiter :=
  ⟨pair.1, pair.2, escape, enclosure⟩

/-- The call that registers one pair of characters. -/
def literalOf (kind : LiteralKind) (escape : Option Char) (pair : Char × Char) : Registration :=
  literal (String.singleton pair.1) (some (String.singleton pair.2)) kind escape

/-- A definition of at least one literal, with a closing character for each opening one. -/
structure IsPaired (start : String) (close : Option String) (kind : LiteralKind) : Prop where
  registrable : kind ≠ .numeric
  opens : start ≠ ""
  paired : ∃ closing, close = some closing ∧ start.length = closing.length

/-- A definition of literals whose opening characters are free. -/
structure IsDefinition (delimiters : Delimiters) (start : String) (close : Option String)
    (kind : LiteralKind) : Prop extends IsPaired start close kind where
  nodup : start.toList.Nodup
  free : ∀ c ∈ start.toList, delimiters.find? c = none

/-- What registering literals makes of an engine. -/
structure Registers (start closing : String) (kind : LiteralKind) (escape : Option Char)
    (engine next : Engine) : Prop where
  own : ∃ enclosure : Enclosure, enclosure.kind = kind ∧ ∀ (position : Nat) (first last : Char),
    start.toList[position]? = some first → closing.toList[position]? = some last →
      next.delimiters.find? first = some ⟨first, last, escape, enclosure⟩
  others : ∀ c, c ∉ start.toList → next.delimiters.find? c = engine.delimiters.find? c
  oneByOne : ∀ order : List (Char × Char), order.Perm (start.toList.zip closing.toList) →
    (order.map (literalOf kind escape)).foldlM apply engine = .ok next

private theorem enclosure?_eq_some {kind : LiteralKind} {enclosure : Enclosure} :
    kind.enclosure? = some enclosure ↔ enclosure.kind = kind := by
  cases kind <;> cases enclosure <;> decide

private theorem enclosure?_eq_none {kind : LiteralKind} :
    kind.enclosure? = none ↔ kind = .numeric := by
  cases kind <;> decide

private theorem map_delimiterOf (escape : Option Char) (enclosure : Enclosure)
    (opening closing : List Char) :
    (opening.zip closing).map (delimiterOf escape enclosure) =
      List.zipWith (fun first last => ⟨first, last, escape, enclosure⟩) opening closing :=
  List.map_zip_eq_zipWith

section Literal

variable {engine : Engine} {start closing : String} {kind : LiteralKind} {escape : Option Char}
  {enclosure : Enclosure}

/-- A call with as many closing as opening characters adds their delimiters one after the other. -/
theorem apply_literal (isKind : kind.enclosure? = some enclosure) (opens : start ≠ "")
    (paired : start.length = closing.length) :
    (literal start (some closing) kind escape).apply engine =
      (((start.toList.zip closing.toList).map (delimiterOf escape enclosure)).foldlM add
        engine.delimiters).map fun delimiters => { engine with delimiters := delimiters } := by
  rw [apply, Engine.registerLiteral, Delimiters.register.eq_def, isKind, map_delimiterOf]
  cases split : start.toList with
  | nil => exact (opens (String.toList_eq_nil_iff.mp split)).elim
  | cons first rest =>
    rw [← String.length_toList, ← String.length_toList, split] at paired
    dsimp only
    rw [if_pos paired]
    rfl

private theorem apply_literalOf (isKind : kind.enclosure? = some enclosure) (pair : Char × Char) :
    (literalOf kind escape pair).apply engine =
      (engine.delimiters.add (delimiterOf escape enclosure pair)).map fun delimiters =>
        { engine with delimiters := delimiters } := by
  rw [literalOf, apply_literal isKind (by simp) (by simp), String.toList_singleton,
    String.toList_singleton]
  change (([delimiterOf escape enclosure pair]).foldlM add engine.delimiters).map _ = _
  rw [List.foldlM_cons]
  cases engine.delimiters.add (delimiterOf escape enclosure pair) <;> rfl

/-- Registering pairs one at a time is adding their delimiters one at a time. -/
private theorem foldlM_apply_literalOf (isKind : kind.enclosure? = some enclosure)
    (order : List (Char × Char)) :
    (order.map (literalOf kind escape)).foldlM apply engine =
      ((order.map (delimiterOf escape enclosure)).foldlM add engine.delimiters).map
        fun delimiters => { engine with delimiters := delimiters } := by
  induction order generalizing engine with
  | nil => rfl
  | cons pair order ih =>
    rw [List.map_cons, List.foldlM_cons, apply_literalOf isKind, List.map_cons, List.foldlM_cons]
    cases engine.delimiters.add (delimiterOf escape enclosure pair) with
    | ok next => exact ih
    | error error => rfl

private theorem map_start_delimiterOf (paired : start.length = closing.length) :
    ((start.toList.zip closing.toList).map (delimiterOf escape enclosure)).map Delimiter.start =
      start.toList := by
  rw [map_delimiterOf]
  exact map_start_zipWith (by rwa [String.length_toList, String.length_toList])

/-- Storing the delimiters of a call registers its literals. -/
theorem registers_of_free (isKind : kind.enclosure? = some enclosure)
    (paired : start.length = closing.length) (nodup : start.toList.Nodup)
    (free : ∀ c ∈ start.toList, engine.delimiters.find? c = none) :
    Registers start closing kind escape engine { engine with
      delimiters := ((start.toList.zip closing.toList).map
        (delimiterOf escape enclosure)).foldl store engine.delimiters } := by
  have starts := @map_start_delimiterOf start closing escape enclosure paired
  have added (order : List (Char × Char)) (perm : order.Perm (start.toList.zip closing.toList)) :
      (order.map (delimiterOf escape enclosure)).foldlM add engine.delimiters =
        .ok (((start.toList.zip closing.toList).map (delimiterOf escape enclosure)).foldl store
          engine.delimiters) := by
    have perm := perm.map (delimiterOf escape enclosure)
    rw [← starts] at nodup
    rw [← foldl_store_of_perm nodup perm]
    refine foldlM_add_eq_ok ((perm.map _).nodup_iff.mpr nodup) fun delimiter member => free _ ?_
    rw [← starts]
    exact List.mem_map_of_mem (perm.mem_iff.mp member)
  have adds := Delimiters.adds_of_foldlM (added _ (.refl _))
  constructor
  case own =>
    refine ⟨enclosure, enclosure?_eq_some.mp isKind, fun position first last isFirst isLast => ?_⟩
    refine adds.own _ (List.mem_map.mpr ⟨(first, last), ?_, rfl⟩)
    exact List.mem_of_getElem? (List.getElem?_zip_eq_some.mpr ⟨isFirst, isLast⟩)
  case others =>
    intro c outside
    exact adds.others c (by rwa [starts])
  case oneByOne =>
    intro order perm
    rw [foldlM_apply_literalOf isKind, added order perm]
    rfl

end Literal

section Answer

variable {engine : Engine} {start : String} {close : Option String} {kind : LiteralKind}
  {escape : Option Char}

/-- A call without pairs of characters fails, and not for a character. -/
private theorem apply_of_not_isPaired (unpaired : ¬IsPaired start close kind) :
    ∃ error, (literal start close kind escape).apply engine = .error error ∧
      ∀ c, error ≠ .characterInUse c := by
  rw [apply, Engine.registerLiteral, Delimiters.register.eq_def]
  cases isKind : kind.enclosure? with
  | none => exact ⟨_, rfl, by simp⟩
  | some enclosure =>
    cases isStart : start.toList with
    | nil => exact ⟨_, rfl, by simp⟩
    | cons first rest =>
      cases close with
      | none => exact ⟨_, rfl, by simp⟩
      | some closing =>
        have differ : (first :: rest).length ≠ closing.toList.length := by
          intro paired
          refine unpaired ⟨?_, ?_, closing, rfl, ?_⟩
          · simp [← enclosure?_eq_none, isKind]
          · simp [← String.toList_eq_nil_iff, isStart]
          · rw [← String.length_toList, ← String.length_toList, isStart, paired]
        dsimp only
        rw [if_neg differ]
        exact ⟨_, rfl, by simp⟩

private theorem IsPaired.exists_enclosure (pairs : IsPaired start close kind) :
    ∃ enclosure, kind.enclosure? = some enclosure :=
  Option.ne_none_iff_exists'.mp (mt enclosure?_eq_none.mp pairs.registrable)

private theorem apply_of_isDefinition
    (definition : IsDefinition engine.delimiters start close kind) :
    ∃ closing next, close = some closing ∧
      (literal start close kind escape).apply engine = .ok next ∧
      Registers start closing kind escape engine next := by
  obtain ⟨enclosure, isKind⟩ := definition.exists_enclosure
  obtain ⟨closing, rfl, paired⟩ := definition.paired
  have registers := @registers_of_free engine start closing kind escape enclosure isKind paired
    definition.nodup definition.free
  refine ⟨closing, _, rfl, ?_, registers⟩
  rw [apply_literal isKind definition.opens paired, ← foldlM_apply_literalOf isKind]
  exact registers.oneByOne _ (.refl _)

/-- A call with pairs of characters is refused for the first opening character that is not free. -/
theorem apply_eq_error_of_isPaired (pairs : IsPaired start close kind) {error : Error} :
    (literal start close kind escape).apply engine = .error error ↔
      ∃ c, error = .characterInUse c ∧ FirstClash engine.delimiters start.toList c := by
  obtain ⟨enclosure, isKind⟩ := pairs.exists_enclosure
  obtain ⟨closing, rfl, paired⟩ := pairs.paired
  have starts := @map_start_delimiterOf start closing escape enclosure paired
  rw [apply_literal isKind pairs.opens paired]
  generalize (start.toList.zip closing.toList).map _ = defined at starts ⊢
  rw [← starts, ← foldlM_add_eq_error]
  cases defined.foldlM add engine.delimiters <;> simp [Except.map]

private theorem apply_eq_characterInUse {c : Char} :
    (literal start close kind escape).apply engine = .error (.characterInUse c) ↔
      IsPaired start close kind ∧ FirstClash engine.delimiters start.toList c := by
  by_cases pairs : IsPaired start close kind
  · rw [apply_eq_error_of_isPaired pairs]
    simp [pairs]
  · obtain ⟨error, failed, differs⟩ := @apply_of_not_isPaired engine start close kind escape pairs
    rw [failed]
    simp [pairs, differs]

/-- A call is accepted exactly if it is a definition of literals whose opening characters are
free. -/
theorem exists_apply_eq_ok : (∃ next, (literal start close kind escape).apply engine = .ok next) ↔
    IsDefinition engine.delimiters start close kind := by
  constructor
  · rintro ⟨next, applied⟩
    have pairs : IsPaired start close kind := by
      by_contra unpaired
      obtain ⟨error, failed, -⟩ := @apply_of_not_isPaired engine start close kind escape unpaired
      rw [failed] at applied
      cases applied
    have extended := extends_of_apply applied
    refine ⟨pairs, List.Nodup.of_map _ extended.nodup, fun c member => ?_⟩
    exact Option.map_eq_none_iff.mp (extended.free (.character c) (List.mem_map_of_mem member))
  · intro definition
    obtain ⟨_, next, -, applied, -⟩ := apply_of_isDefinition definition
    exact ⟨next, applied⟩

end Answer

/-- What a call in place answers and leaves. -/
private theorem perform_cases (engine : Engine) (call : Registration) :
    (∃ next, call.apply engine = .ok next ∧ call.perform engine = (.ok (), next)) ∨
      ∃ error, call.apply engine = .error error ∧
        call.perform engine = (.error error, engine) := by
  rw [perform_eq]
  cases call.apply engine with
  | ok next => exact .inl ⟨next, rfl, rfl⟩
  | error error => exact .inr ⟨error, rfl, rfl⟩

/-- A call that registers literals is accepted exactly if it is a definition of literals whose
opening characters are free. Then it registers them, and nothing changes otherwise. It is refused
for a character exactly if there are pairs of characters and that one is the first which is in use
or repeats an earlier one. -/
theorem perform_literal (engine : Engine) (start : String) (close : Option String)
    (kind : LiteralKind) (escape : Option Char) :
    let outcome := (literal start close kind escape).perform engine
    (outcome.1 = .ok () ↔ IsDefinition engine.delimiters start close kind) ∧
      (IsDefinition engine.delimiters start close kind →
        ∃ closing, close = some closing ∧
          Registers start closing kind escape engine outcome.2) ∧
      (¬IsDefinition engine.delimiters start close kind →
        (∃ error, outcome.1 = .error error) ∧
        (∀ c, outcome.2.delimiters.find? c = engine.delimiters.find? c) ∧
        ∀ text, outcome.2.delimiters.leavesOpen text = engine.delimiters.leavesOpen text) ∧
      ∀ c, outcome.1 = .error (.characterInUse c) ↔
        IsPaired start close kind ∧ FirstClash engine.delimiters start.toList c := by
  intro outcome
  have accepted := @exists_apply_eq_ok engine start close kind escape
  have refused (c : Char) := @apply_eq_characterInUse engine start close kind escape c
  rcases perform_cases engine (literal start close kind escape) with
    ⟨next, applied, isOutcome⟩ | ⟨error, failed, isOutcome⟩
  · have definition := accepted.mp ⟨next, applied⟩
    obtain ⟨closing, other, isClosing, same, registers⟩ :=
      @apply_of_isDefinition engine start close kind escape definition
    rw [applied] at same refused
    cases same
    rw [show outcome = (.ok (), next) from isOutcome]
    refine ⟨iff_of_true rfl definition, fun _ => ⟨closing, isClosing, registers⟩,
      fun invalid => (invalid definition).elim, fun c => ?_⟩
    rw [← refused]
    exact iff_of_false nofun nofun
  · rw [failed] at accepted refused
    have invalid := mt accepted.mpr nofun
    rw [show outcome = (.error error, engine) from isOutcome]
    refine ⟨iff_of_false nofun invalid, fun definition => (invalid definition).elim,
      fun _ => ⟨⟨error, rfl⟩, fun _ => rfl, fun _ => rfl⟩, fun c => ?_⟩
    rw [← refused]
    simp

end Registration

end Stencil
