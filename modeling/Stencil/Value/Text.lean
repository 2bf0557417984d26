import Stencil.Decimal.Layout
import Stencil.Text.Escaping
import Stencil.Value

/-! # The text of a value

A text stands for itself at the top and is quoted inside a list or a map. Numbers with a
fraction part are always written by position.
-/

namespace Stencil.Value

/-- Floating point values are written by position, whatever their size, and whole numbers below
`10 ^ 16` end in `.0`. -/
def floatLayout : Decimal.Layout where
  scientific _ := false
  pointZero leading := leading < 16
  notANumber := "nan"

/-- A text between single quotes, with a backslash before every single quote in it. -/
def quoted (text : String) : String :=
  Text.quote '\'' (· == '\'') text

/-- How a value stands inside a list or a map, given its own text. -/
def nestedText (value : Value) (plain : String) : String :=
  match value with
  | .str text => quoted text
  | _ => plain

mutual

/-- The text of a value. -/
def toText : Value → String
  | .null => "None"
  | .bool true => "True"
  | .bool false => "False"
  | .int n => Decimal.integerText n.toInt
  | .float x => floatLayout.floatText x
  | .str text => text
  | .list items => "[" ++ ", ".intercalate (itemTexts items) ++ "]"
  | .map entries => "\x7b" ++ ", ".intercalate (entryTexts entries) ++ "\x7d"

/-- The texts of the items of a list. -/
def itemTexts : List Value → List String
  | [] => []
  | value :: rest => nestedText value value.toText :: itemTexts rest

/-- The texts of the entries of a map; keys stand between single quotes as they are. -/
def entryTexts : List (String × Value) → List String
  | [] => []
  | (key, value) :: rest =>
    ("'" ++ key ++ "': " ++ nestedText value value.toText) :: entryTexts rest

end

end Stencil.Value
