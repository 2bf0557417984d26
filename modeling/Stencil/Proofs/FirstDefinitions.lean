import Stencil.Registration
import Stencil.Proofs.Result

/-! # The first definition stays

Whatever calls are made to extend an engine, a call that fails leaves the engine as it was, and one
that succeeds defines its own names and characters, which were free, and nothing else:
`Registration.perform_eq` and `Registration.extends_of_apply`. So what is defined once stays for all
further calls, `Registration.performAll_keeps`.
-/

namespace Stencil

open Result

namespace Delimiters

@[simp] theorem find?_store (delimiters : Delimiters) (delimiter : Delimiter) (c : Char) :
    (delimiters.store delimiter).find? c =
      if c = delimiter.start then some delimiter else delimiters.find? c :=
  delimiters.table.find?_insert delimiter.start c delimiter

@[simp] theorem contains_store (delimiters : Delimiters) (delimiter : Delimiter) (c : Char) :
    (delimiters.store delimiter).table.contains c =
      (delimiter.start == c || delimiters.table.contains c) := by
  rw [Table.contains, store, Table.find?_insert]
  by_cases same : c = delimiter.start
  · simp [same]
  · simp [same, Ne.symm same, Table.contains]

theorem add_eq_ok {delimiters next : Delimiters} {delimiter : Delimiter} :
    delimiters.add delimiter = .ok next ↔
      delimiters.find? delimiter.start = none ∧ next = delimiters.store delimiter := by
  rw [add, Table.contains, find?]
  cases delimiters.table.find? delimiter.start with
  | none => simp [store, eq_comm]
  | some found => simp

/-- What adding delimiters one after the other does if it succeeds. -/
structure Adds (defined : List Delimiter) (delimiters next : Delimiters) : Prop where
  next_eq : next = defined.foldl store delimiters
  nodup : (defined.map Delimiter.start).Nodup
  free : ∀ delimiter ∈ defined, delimiters.find? delimiter.start = none
  own : ∀ delimiter ∈ defined, next.find? delimiter.start = some delimiter
  others : ∀ c, c ∉ defined.map Delimiter.start → next.find? c = delimiters.find? c

theorem adds_of_foldlM {defined : List Delimiter} {delimiters next : Delimiters}
    (added : defined.foldlM add delimiters = .ok next) : Adds defined delimiters next := by
  induction defined generalizing delimiters with
  | nil =>
    cases added
    exact ⟨rfl, .nil, nofun, nofun, fun _ _ => rfl⟩
  | cons delimiter rest ih =>
    rw [List.foldlM_cons] at added
    obtain ⟨current, stored, added⟩ := bind_eq_ok.mp added
    obtain ⟨free, rfl⟩ := add_eq_ok.mp stored
    have later := ih added
    have differs : ∀ other ∈ rest, other.start ≠ delimiter.start := by
      intro other member same
      have isFree := later.free other member
      rw [find?_store, if_pos same] at isFree
      cases isFree
    have notLater : delimiter.start ∉ rest.map Delimiter.start := by
      intro member
      obtain ⟨other, listed, same⟩ := List.mem_map.mp member
      exact differs other listed same
    refine ⟨later.next_eq, List.nodup_cons.mpr ⟨notLater, later.nodup⟩, ?_, ?_, ?_⟩
    · refine List.forall_mem_cons.mpr ⟨free, fun other member => ?_⟩
      have isFree := later.free other member
      rwa [find?_store, if_neg (differs other member)] at isFree
    · refine List.forall_mem_cons.mpr ⟨?_, later.own⟩
      rw [later.others _ notLater, find?_store, if_pos rfl]
    · intro c outside
      rw [List.map_cons, List.mem_cons, not_or] at outside
      rw [later.others c outside.2, find?_store, if_neg outside.1]

/-- A literal that is registered has a kind with delimiters and as many closing as opening
characters. -/
theorem exists_of_register {delimiters next : Delimiters} {start : String} {close : Option String}
    {kind : LiteralKind} {escape : Option Char}
    (registered : delimiters.register start close kind escape = .ok next) :
    ∃ enclosure closing, kind.enclosure? = some enclosure ∧ close = some closing ∧
      start.toList.length = closing.toList.length ∧
      (List.zipWith (fun first second => ⟨first, second, escape, enclosure⟩)
        start.toList closing.toList).foldlM add delimiters = .ok next := by
  rw [register.eq_def] at registered
  split at registered
  · cases registered
  · cases registered
  · cases registered
  · next enclosure first rest closing isKind isStart =>
    split at registered
    · next paired =>
      rw [isStart]
      exact ⟨enclosure, closing, isKind, rfl, paired, registered⟩
    · cases registered

end Delimiters

namespace Registration

open Delimiters (store add)

private theorem run_get_bind {α : Type} (engine : Engine) (rest : Engine → Engine.Update α) :
    (get >>= rest : Engine.Update α).run engine = (rest engine).run engine := rfl

/-- A failure ends a program, and what has been changed before it stays. -/
private theorem run_bind {α β : Type} (engine : Engine) (first : Engine.Update α)
    (rest : α → Engine.Update β) :
    (first >>= rest).run engine = match first.run engine with
      | (.ok a, next) => (rest a).run next
      | (.error error, next) => (.error error, next) := by
  change (match first.run engine with
    | (answer, next) => ExceptT.bindCont rest answer next) = _
  rcases first.run engine with ⟨_ | _, next⟩ <;> rfl

/-- The check of a literal fails where adding the delimiters one after the other does. -/
private theorem run_checkFree {engine : Engine} {passed defined : List Delimiter}
    {current : Delimiters} (same : ∀ c, current.table.contains c =
      (passed.any (fun earlier => earlier.start == c) || engine.delimiters.table.contains c)) :
    (checkFree passed defined).run engine =
      ((defined.foldlM add current).map fun _ => (), engine) := by
  induction defined generalizing passed current with
  | nil => rfl
  | cons delimiter rest ih =>
    rw [checkFree, run_get_bind, ← same, List.foldlM_cons, add]
    split
    · rfl
    · refine ih fun c => ?_
      rw [← Delimiters.store, Delimiters.contains_store, same, List.any_append,
        List.any_cons, List.any_nil, Bool.or_false]
      ac_rfl

private theorem run_forM_storeDelimiter (engine : Engine) (defined : List Delimiter) :
    (defined.forM storeDelimiter).run engine =
      (.ok (), { engine with delimiters := defined.foldl store engine.delimiters }) := by
  induction defined generalizing engine with
  | nil => rfl
  | cons delimiter rest ih =>
    exact ih { engine with delimiters := engine.delimiters.store delimiter }

/-- The answer of a function that gives a new engine, as the one of a program that changes it. -/
def inPlace (engine : Engine) : Result Engine → Result Unit × Engine
  | .ok next => (.ok (), next)
  | .error error => (.error error, engine)

/-- Checking all delimiters and then storing them one by one is adding them one by one. -/
private theorem run_checkFree_storeAll (engine : Engine) (defined : List Delimiter) :
    (do checkFree [] defined; defined.forM storeDelimiter : Engine.Update Unit).run engine =
      inPlace engine (do
        return { engine with delimiters := ← defined.foldlM add engine.delimiters }) := by
  have checked : (checkFree [] defined).run engine =
      ((defined.foldlM add engine.delimiters).map fun _ => (), engine) :=
    run_checkFree fun c => rfl
  rw [run_bind, checked]
  cases added : defined.foldlM add engine.delimiters with
  | error error => rfl
  | ok next =>
    rw [(Delimiters.adds_of_foldlM added).next_eq]
    exact run_forM_storeDelimiter engine defined

private theorem run_performLiteral (engine : Engine) (start : String) (close : Option String)
    (kind : LiteralKind) (escape : Option Char) :
    (performLiteral start close kind escape).run engine =
      inPlace engine (engine.registerLiteral start close kind escape) := by
  rw [performLiteral.eq_def, Engine.registerLiteral, Delimiters.register.eq_def]
  generalize kind.enclosure? = enclosure?
  generalize start.toList = opening
  cases enclosure? with
  | none => rfl
  | some enclosure =>
    cases opening with
    | nil => rfl
    | cons first rest =>
      cases close with
      | none => rfl
      | some close =>
        dsimp only
        split
        · exact run_checkFree_storeAll engine _
        · rfl

private theorem run_performTag (engine : Engine) (name : String) (tag : Tag) :
    (performTag name tag).run engine = inPlace engine (engine.registerTag name tag) := by
  rw [performTag, run_get_bind, Engine.registerTag, TagRegistry.add]
  split <;> rfl

private theorem run_performTemplate (engine : Engine) (name source : String) :
    (performTemplate name source).run engine =
      inPlace engine (engine.addTemplate name source) := by
  rw [performTemplate, run_get_bind, Engine.addTemplate, TemplateStore.add]
  split <;> rfl

/-- A call in place gives the engine of the function, or leaves its engine as it was. -/
theorem perform_eq (engine : Engine) (call : Registration) :
    call.perform engine = inPlace engine (call.apply engine) := by
  cases call with
  | literal start close kind escape => exact run_performLiteral engine start close kind escape
  | inlineTag name handler => exact run_performTag engine name (.inline handler)
  | blockTag name block => exact run_performTag engine name (.block block)
  | template name source => exact run_performTemplate engine name source

end Registration

/-- What a definition is found by: the character that opens a literal, the name of a tag, or the
name of a template. -/
inductive Key
  | character (c : Char)
  | tag (name : String)
  | template (name : String)
  deriving DecidableEq, Repr

/-- What is found by a key. -/
inductive Definition
  | delimiter (delimiter : Delimiter)
  | tag (tag : Tag)
  | template (source : String)

namespace Engine

variable {engine next : Engine}

/-- The definition of a key. -/
def find? (engine : Engine) : Key → Option Definition
  | .character c => (engine.delimiters.find? c).map .delimiter
  | .tag name => (engine.tags.find? name).map .tag
  | .template name => (engine.templates.find? name).map .template

theorem registerTag_eq_ok {name : String} {tag : Tag}
    (registered : engine.registerTag name tag = .ok next) :
    engine.tags.find? name = none ∧
      next = { engine with tags := ⟨engine.tags.table.insert name tag⟩ } := by
  rw [registerTag, TagRegistry.add, Table.contains] at registered
  rw [TagRegistry.find?]
  split at registered
  · cases registered
  · next free =>
    cases registered
    exact ⟨by simpa using free, rfl⟩

private theorem addTemplate_eq_ok {name source : String}
    (added : engine.addTemplate name source = .ok next) :
    engine.templates.find? name = none ∧
      next = { engine with templates := ⟨engine.templates.table.insert name source⟩ } := by
  rw [addTemplate, TemplateStore.add, Table.contains] at added
  rw [TemplateStore.find?]
  split at added
  · cases added
  · next free =>
    cases added
    exact ⟨by simpa using free, rfl⟩

/-- A template that has been added is rendered, whatever a loader answers for its name. -/
theorem render_of_find? {name source : String}
    (found : engine.find? (.template name) = some (.template source)) (loader : Option Loader)
    (context : Context) : ({ engine with loader := loader }).render name context =
      ({ engine with loader := loader }).renderSource source context := by
  obtain ⟨stored, isStored, same⟩ := Option.map_eq_some_iff.mp found
  cases same
  simp only [render, load, isStored]
  rfl

end Engine

namespace Registration

/-- The keys that a call wants to define. -/
def keys : Registration → List Key
  | literal start _ _ _ => start.toList.map .character
  | inlineTag name _ => [.tag name]
  | blockTag name _ => [.tag name]
  | template name _ => [.template name]

/-- The definitions that a call makes if it succeeds. -/
def entries : Registration → List (Key × Definition)
  | literal start (some close) kind escape =>
    kind.enclosure?.elim [] fun enclosure =>
      (List.zipWith (fun opening closing => (⟨opening, closing, escape, enclosure⟩ : Delimiter))
        start.toList close.toList).map fun delimiter =>
          (.character delimiter.start, .delimiter delimiter)
  | literal _ none _ _ => []
  | inlineTag name handler => [(.tag name, .tag (.inline handler))]
  | blockTag name block => [(.tag name, .tag (.block block))]
  | template name source => [(.template name, .template source)]

/-- What a call that succeeds does: it gives each of its keys, none of which had a definition, its
own one, and changes nothing else. -/
structure Extends (call : Registration) (engine next : Engine) : Prop where
  keys_eq : call.entries.map Prod.fst = call.keys
  nodup : call.keys.Nodup
  free : ∀ key ∈ call.keys, engine.find? key = none
  own : ∀ entry ∈ call.entries, next.find? entry.1 = some entry.2
  others : ∀ key, key ∉ call.keys → next.find? key = engine.find? key
  loader : next.loader = engine.loader
  options : next.options = engine.options

/-- The characters that a call pairs up are those that open its delimiters. -/
theorem map_start_zipWith {escape : Option Char} {enclosure : Enclosure}
    {opening closing : List Char} (paired : opening.length = closing.length) :
    (List.zipWith (fun first second => (⟨first, second, escape, enclosure⟩ : Delimiter))
      opening closing).map Delimiter.start = opening := by
  calc _ = List.zipWith (Function.curry Prod.fst) opening closing := by
        rw [List.map_zipWith]
        rfl
    _ = (opening.zip closing).map Prod.fst := List.map_zip_eq_zipWith.symm
    _ = opening := List.map_fst_zip (Nat.le_of_eq paired)

private theorem extends_literal {engine : Engine} {start : String} {close : Option String}
    {kind : LiteralKind} {escape : Option Char} {delimiters : Delimiters}
    (registered : engine.delimiters.register start close kind escape = .ok delimiters) :
    (literal start close kind escape).Extends engine { engine with delimiters := delimiters } := by
  obtain ⟨enclosure, closing, isKind, rfl, paired, added⟩ :=
    Delimiters.exists_of_register registered
  have adds := Delimiters.adds_of_foldlM added
  have starts := @map_start_zipWith escape enclosure _ _ paired
  have entries_eq : entries (literal start (some closing) kind escape) =
      (List.zipWith (fun first second => (⟨first, second, escape, enclosure⟩ : Delimiter))
        start.toList closing.toList).map fun delimiter =>
          (.character delimiter.start, .delimiter delimiter) := by
    rw [entries, isKind]
    rfl
  generalize List.zipWith _ _ _ = defined at adds starts entries_eq
  have keys_eq : keys (literal start (some closing) kind escape) =
      defined.map fun delimiter => .character delimiter.start := by
    rw [keys, ← starts, List.map_map]
    rfl
  constructor
  case keys_eq =>
    rw [entries_eq, keys_eq, List.map_map]
    rfl
  case nodup =>
    have nodup := adds.nodup
    rw [starts] at nodup
    exact List.Pairwise.map Key.character
      (fun _ _ differs same => differs (Key.character.inj same)) nodup
  case free =>
    rw [keys_eq, List.forall_mem_map]
    intro delimiter member
    rw [Engine.find?, adds.free delimiter member]
    rfl
  case own =>
    rw [entries_eq, List.forall_mem_map]
    intro delimiter member
    exact congrArg (Option.map Definition.delimiter) (adds.own delimiter member)
  case others =>
    intro key outside
    cases key with
    | tag | template => rfl
    | character c =>
      refine congrArg (Option.map Definition.delimiter) (adds.others c fun member => outside ?_)
      rw [keys, ← starts]
      exact List.mem_map_of_mem member
  case loader => rfl
  case options => rfl

/-- A call with one key, which is free, and whose definition is all that it changes. -/
private theorem extends_of_single {call : Registration} {engine next : Engine} {key : Key}
    {definition : Definition} (isKey : call.keys = [key])
    (isEntry : call.entries = [(key, definition)]) (free : engine.find? key = none)
    (stored : ∀ other, next.find? other =
      if other = key then some definition else engine.find? other)
    (loader : next.loader = engine.loader) (options : next.options = engine.options) :
    call.Extends engine next := by
  refine ⟨by rw [isKey, isEntry]; rfl, ?_, ?_, ?_, fun other outside => ?_, loader, options⟩
  · rw [isKey]
    exact List.pairwise_singleton _ _
  · rwa [isKey, List.forall_mem_singleton]
  · rw [isEntry, List.forall_mem_singleton, stored, if_pos rfl]
  · rw [isKey, List.mem_singleton] at outside
    rw [stored, if_neg outside]

private theorem extends_tag {engine next : Engine} {name : String} {tag : Tag} {call : Registration}
    (isKey : call.keys = [.tag name]) (isEntry : call.entries = [(.tag name, .tag tag)])
    (registered : engine.registerTag name tag = .ok next) : call.Extends engine next := by
  obtain ⟨free, rfl⟩ := Engine.registerTag_eq_ok registered
  refine extends_of_single isKey isEntry ?_ (fun other => ?_) rfl rfl
  · rw [Engine.find?, free]
    rfl
  · cases other with
    | character | template => rfl
    | tag other =>
      rw [Engine.find?, TagRegistry.find?, Table.find?_insert]
      split
      · next same => rw [same, if_pos rfl]; rfl
      · next differs => rw [if_neg fun same => differs (Key.tag.inj same)]; rfl

private theorem extends_template {engine next : Engine} {name source : String}
    (added : engine.addTemplate name source = .ok next) :
    (template name source).Extends engine next := by
  obtain ⟨free, rfl⟩ := Engine.addTemplate_eq_ok added
  refine extends_of_single rfl rfl ?_ (fun other => ?_) rfl rfl
  · rw [Engine.find?, free]
    rfl
  · cases other with
    | character | tag => rfl
    | template other =>
      rw [Engine.find?, TemplateStore.find?, Table.find?_insert]
      split
      · next same => rw [same, if_pos rfl]; rfl
      · next differs => rw [if_neg fun same => differs (Key.template.inj same)]; rfl

theorem extends_of_apply {engine next : Engine} {call : Registration}
    (applied : call.apply engine = .ok next) : call.Extends engine next := by
  cases call with
  | literal start close kind escape =>
    obtain ⟨delimiters, registered, same⟩ := bind_eq_ok.mp applied
    cases same
    exact extends_literal registered
  | inlineTag name handler => exact extends_tag rfl rfl applied
  | blockTag name block => exact extends_tag rfl rfl applied
  | template name source => exact extends_template applied

section Sequences

variable {engine : Engine} {call : Registration}

/-- A call that fails leaves the engine as it was. -/
theorem perform_of_error {error : Error} (failed : (call.perform engine).1 = .error error) :
    (call.perform engine).2 = engine := by
  rw [perform_eq] at failed ⊢
  cases applied : call.apply engine with
  | ok next =>
    rw [applied] at failed
    cases failed
  | error other => rfl

/-- A call that succeeds makes its own definitions. -/
theorem extends_of_perform (succeeded : (call.perform engine).1 = .ok ()) :
    call.Extends engine (call.perform engine).2 := by
  rw [perform_eq] at succeeded ⊢
  cases applied : call.apply engine with
  | ok next => exact extends_of_apply applied
  | error error =>
    rw [applied] at succeeded
    cases succeeded

/-- A call keeps every definition that there is. -/
theorem find?_perform {key : Key} {definition : Definition}
    (found : engine.find? key = some definition) :
    (call.perform engine).2.find? key = some definition := by
  cases answer : (call.perform engine).1 with
  | error error => rwa [perform_of_error answer]
  | ok =>
    have extended := extends_of_perform answer
    have notOwn : key ∉ call.keys := fun member => by
      rw [extended.free key member] at found
      cases found
    rwa [extended.others key notOwn]

@[simp] theorem performAll_append (engine : Engine) (before after : List Registration) :
    performAll engine (before ++ after) = performAll (performAll engine before) after :=
  List.foldl_append

/-- What is defined stays defined as it is, whatever calls are made. -/
theorem find?_performAll {key : Key} {definition : Definition} (calls : List Registration)
    (found : engine.find? key = some definition) :
    (performAll engine calls).find? key = some definition := by
  induction calls generalizing engine with
  | nil => exact found
  | cons call rest ih => exact ih (find?_perform found)

/-- A definition has been there from the beginning, or the first call that succeeded in defining its
key made it. -/
private theorem exists_first_of_find?_performAll {key : Key} {definition : Definition}
    {calls : List Registration} (found : (performAll engine calls).find? key = some definition) :
    engine.find? key = some definition ∨ ∃ earlier made later, calls = earlier ++ made :: later ∧
      (performAll engine earlier).find? key = none ∧
      (made.perform (performAll engine earlier)).1 = .ok () ∧ (key, definition) ∈ made.entries := by
  induction calls generalizing engine with
  | nil => exact .inl found
  | cons call rest ih =>
    have foundLater : (performAll (call.perform engine).2 rest).find? key = some definition := found
    rcases ih foundLater with early | ⟨earlier, made, later, rfl, fresh⟩
    · cases answer : (call.perform engine).1 with
      | error error =>
        rw [perform_of_error answer] at early
        exact .inl early
      | ok =>
        have extended := extends_of_perform answer
        by_cases isKey : key ∈ call.keys
        · have isFree := extended.free key isKey
          rw [← extended.keys_eq] at isKey
          obtain ⟨entry, listed, rfl⟩ := List.mem_map.mp isKey
          have own := extended.own entry listed
          rw [early] at own
          cases own
          exact .inr ⟨[], call, rest, rfl, isFree, answer, listed⟩
        · rw [extended.others key isKey] at early
          exact .inl early
    · exact .inr ⟨call :: earlier, made, later, rfl, fresh⟩

/-- In any sequence of calls: one that fails changes nothing. One that succeeds defines its own
keys, which were free, and changes nothing else, and its definitions are found after all later
calls. So is every definition that the engine started with, and the others are those of the first
successful calls. A template that is found is rendered, whatever a loader answers for its name. -/
theorem first_definitions_stay (engine : Engine) (before : List Registration) (call : Registration)
    (after : List Registration) :
    let current := performAll engine before
    let last := performAll engine (before ++ call :: after)
    (∀ error, (call.perform current).1 = .error error → (call.perform current).2 = current) ∧
      ((call.perform current).1 = .ok () → call.Extends current (call.perform current).2 ∧
        ∀ entry ∈ call.entries, last.find? entry.1 = some entry.2) ∧
      (∀ key definition, engine.find? key = some definition → last.find? key = some definition) ∧
      (∀ key definition, last.find? key = some definition →
        engine.find? key = some definition ∨ ∃ earlier made later,
          before ++ call :: after = earlier ++ made :: later ∧
          (performAll engine earlier).find? key = none ∧
          (made.perform (performAll engine earlier)).1 = .ok () ∧
          (key, definition) ∈ made.entries) ∧
      ∀ name source, current.find? (.template name) = some (.template source) →
        ∀ (loader : Option Loader) context, ({ last with loader := loader }).render name context =
          ({ last with loader := loader }).renderSource source context := by
  intro current last
  have last_eq : last = performAll (call.perform current).2 after :=
    performAll_append engine before _
  refine ⟨fun error failed => perform_of_error failed, fun succeeded => ?_,
    fun key definition found => find?_performAll _ found,
    fun key definition found => exists_first_of_find?_performAll found,
    fun name source found loader context => ?_⟩
  · have extended := extends_of_perform succeeded
    refine ⟨extended, fun entry member => ?_⟩
    rw [last_eq]
    exact find?_performAll after (extended.own entry member)
  · refine Engine.render_of_find? ?_ loader context
    rw [last_eq]
    exact find?_performAll after (find?_perform found)

/-- Of two characters in one call the second one is in use. -/
example :
    ((literal "|^|" (some "|^|") .string none).perform { }).1 = .error (.characterInUse '|') := by
  decide

end Sequences

end Registration

end Stencil
