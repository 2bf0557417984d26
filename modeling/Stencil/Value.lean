import Stencil.Table

/-! # Values

The dynamic values that expressions evaluate to: nothing, truth values, 64-bit integers, double
precision numbers, texts, lists and maps. The entries of a map stand in ascending order of their
keys; `Value.ofPairs` builds them so.
-/

namespace Stencil

/-- A dynamically typed value. -/
inductive Value
  | null
  | bool (b : Bool)
  | int (n : Int64)
  | float (x : Float)
  | str (text : String)
  | list (items : List Value)
  | map (entries : List (String × Value))

namespace Value

instance : Inhabited Value := ⟨.null⟩

/-- The name of the value's type, as failures mention it. -/
def typeName : Value → String
  | .null => "none"
  | .bool _ => "bool"
  | .int _ => "int"
  | .float _ => "float"
  | .str _ => "str"
  | .list _ => "list"
  | .map _ => "map"

/-- Nothing, zero and empty values are not truthy; a value that is not a number is. -/
def isTruthy : Value → Bool
  | .null => false
  | .bool b => b
  | .int n => n ≠ 0
  | .float x => !(x == 0.0)
  | .str text => !text.isEmpty
  | .list items => !items.isEmpty
  | .map entries => !entries.isEmpty

/-- Whether the value is nothing. -/
def isNull : Value → Bool
  | .null => true
  | _ => false

/-- The content of a text value. -/
def text? : Value → Option String
  | .str text => some text
  | _ => none

/-- A map of the given pairs; of two pairs with one key the later one counts. -/
def ofPairs (pairs : List (String × Value)) : Value :=
  .map (pairs.foldl (fun entries pair => Table.insertEntry pair.1 pair.2 entries) [])

/-- The attribute of a name. Only maps have attributes. -/
def attribute? (name : String) : Value → Option Value
  | .map entries => Table.findEntry? name entries
  | _ => none

/-- What a loop walks over: the items of a list, the characters of a text, the keys of a map. -/
def elements? : Value → Option (List Value)
  | .list items => some items
  | .str text => some (text.toList.map fun c => .str c.toString)
  | .map entries => some (entries.map fun entry => .str entry.1)
  | _ => none

end Value

end Stencil
