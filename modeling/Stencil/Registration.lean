import Stencil.Engine

/-! # Extending an engine in place

The calls that extend an engine, as programs that change it where it stands. Such a program makes
all its checks before it stores anything, since what it has stored before a failure would stay. A
literal is stored character by character, so its check looks at all opening characters of the call,
those in use and those that the call repeats.
-/

namespace Stencil

/-- The delimiters with one more stored, in place of an earlier one of its character. -/
def Delimiters.store (delimiters : Delimiters) (delimiter : Delimiter) : Delimiters :=
  ⟨delimiters.table.insert delimiter.start delimiter⟩

/-- A program that changes an engine in place. A failure does not take back what was changed before
it. -/
abbrev Engine.Update : Type → Type :=
  ExceptT Error (StateM Engine)

/-- A call that extends an engine. -/
inductive Registration
  | literal (start : String) (close : Option String) (kind : LiteralKind) (escape : Option Char)
  | inlineTag (name : String) (handler : InlineHandler)
  | blockTag (name : String) (block : BlockTag)
  | template (name source : String)

namespace Registration

/-- The extended engine. -/
def apply (engine : Engine) : Registration → Result Engine
  | literal start close kind escape => engine.registerLiteral start close kind escape
  | inlineTag name handler => engine.registerTag name (.inline handler)
  | blockTag name block => engine.registerTag name (.block block)
  | template name source => engine.addTemplate name source

/-- Checks that the opening characters of delimiters are in use neither in the engine nor by the
delimiters that have already passed. -/
def checkFree (passed : List Delimiter) : List Delimiter → Engine.Update Unit
  | [] => pure ()
  | delimiter :: rest => do
    let engine ← get
    if passed.any (fun earlier => earlier.start == delimiter.start) ||
        engine.delimiters.table.contains delimiter.start then
      throw (.characterInUse delimiter.start)
    else checkFree (passed ++ [delimiter]) rest

/-- Stores a delimiter without a check. -/
def storeDelimiter (delimiter : Delimiter) : Engine.Update Unit :=
  modify fun engine => { engine with delimiters := engine.delimiters.store delimiter }

/-- Adds a delimiter for each character of `start`, see `Delimiters.register`. -/
def performLiteral (start : String) (close : Option String) (kind : LiteralKind)
    (escape : Option Char) : Engine.Update Unit :=
  match kind.enclosure?, start.toList, close with
  | none, _, _ => throw (.literalKindNotRegistrable kind.name)
  | some _, [], close => throw (.delimitersUnpaired "" (close.getD ""))
  | some _, first :: _, none => throw (.closeCharacterMissing first)
  | some enclosure, first :: rest, some close =>
    if (first :: rest).length = close.toList.length then do
      let defined := List.zipWith (fun opening closing => ⟨opening, closing, escape, enclosure⟩)
        (first :: rest) close.toList
      checkFree [] defined
      defined.forM storeDelimiter
    else throw (.delimitersUnpaired start close)

/-- Adds a tag, see `TagRegistry.add`. -/
def performTag (name : String) (tag : Tag) : Engine.Update Unit := do
  let engine ← get
  if engine.tags.table.contains name then throw (.tagExists name)
  else set { engine with tags := ⟨engine.tags.table.insert name tag⟩ }

/-- Adds a named template, see `TemplateStore.add`. -/
def performTemplate (name source : String) : Engine.Update Unit := do
  let engine ← get
  if engine.templates.table.contains name then throw (.templateExists name)
  else set { engine with templates := ⟨engine.templates.table.insert name source⟩ }

/-- The program of a call. -/
def program : Registration → Engine.Update Unit
  | literal start close kind escape => performLiteral start close kind escape
  | inlineTag name handler => performTag name (.inline handler)
  | blockTag name block => performTag name (.block block)
  | template name source => performTemplate name source

/-- The answer of a call and the engine that it leaves. -/
def perform (engine : Engine) (call : Registration) : Result Unit × Engine :=
  call.program.run engine

/-- The engine that a sequence of calls leaves, whether they fail or not. -/
def performAll (engine : Engine) (calls : List Registration) : Engine :=
  calls.foldl (fun current call => (call.perform current).2) engine

end Registration

end Stencil
