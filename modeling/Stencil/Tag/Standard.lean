import Stencil.Tag

/-! # The standard tags

`include` renders a named template in its place, `parse` writes the value of an expression, `if`
renders the first of its sections whose condition holds, and `for` renders its section once for
each element of a value.
-/

namespace Stencil.StandardTag

/-- Renders the template whose name the argument gives; a missing one leaves no text. -/
def includeTemplate (call : TagCall) : Result String := do
  checkArgumentCount "include" call.arguments.length 1
  match ← call.evaluate with
  | .str name =>
    match ← call.load name with
    | some source => call.render source
    | none => return ""
  | other =>
    throw (.invalidArgument "include" ("expected a template name string, got " ++ other.typeName))

/-- Writes the value of the arguments. -/
def parse (call : TagCall) : Result String :=
  if call.arguments.isEmpty then .error (.missingArguments "parse" 1 0)
  else do return (← call.evaluate).toText

/-- A section under `if` or `elif` is rendered when its condition is true or has no value, a
section under `else` always. Other values than these do not count as true. -/
def conditional (call : TagCall) (body : SectionBody) : Result (Option String) :=
  if call.name = "if" ∨ call.name = "elif" then do
    match ← call.evaluate with
    | .bool true | .null => return some (← body.render call.context)
    | _ => return none
  else if call.name = "else" then do
    checkArgumentCount "else" call.arguments.length 0
    return some (← body.render call.context)
  else .error (.unknownConditional call.name)

/-- The loop variable of a token. -/
def loopVariable : Token → Result String
  | .identifier ⟨name, []⟩ => .ok name
  | other =>
    .error (.invalidArgument "for" ("expected a loop variable name, got " ++ other.toText))

/-- Checks the word between the loop variable and what it runs over. -/
def loopKeyword : Token → Result Unit
  | .operator (.binary .contained) => .ok ()
  | other => .error (.invalidArgument "for" ("expected in, got " ++ other.toText))

/-- The elements that a loop runs over. -/
def loopElements (value : Value) : Result (List Value) :=
  match value.elements? with
  | some elements => .ok elements
  | none => .error (.invalidArgument "for" (value.typeName ++ " is not iterable"))

/-- Renders the section once for each element, with the loop variable bound to it. -/
def forLoop (call : TagCall) (body : SectionBody) : Result (Option String) :=
  match call.arguments with
  | [variableToken, keyword, iterated] => do
    let name ← loopVariable variableToken
    loopKeyword keyword
    let elements ← loopElements (← Expression.evaluate call.context [iterated])
    let parts ← elements.mapM fun element => body.render (call.context.insert name element)
    return some (String.join parts)
  | arguments => do
    checkArgumentCount "for" arguments.length 3
    return none

/-- The tags that every engine starts with. -/
def all : TagRegistry :=
  ⟨[("include", Tag.inline includeTemplate), ("parse", .inline parse),
    ("if", .block ⟨conditional, "endif", [⟨"elif", none⟩, ⟨"else", none⟩]⟩),
    ("for", .block ⟨forLoop, "endfor", []⟩)].foldl (fun table entry => table.insert entry.1 entry.2)
      .empty⟩

end Stencil.StandardTag
