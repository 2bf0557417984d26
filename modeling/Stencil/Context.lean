import Stencil.Identifier
import Stencil.Value

/-! # Contexts

The values that names stand for while an expression is evaluated or a template is rendered.
-/

namespace Stencil

/-- A finite assignment of values to names. -/
structure Context where
  bindings : Table String Value := { }

namespace Context

/-- The value of a name. -/
def find? (context : Context) (name : String) : Option Value :=
  context.bindings.find? name

/-- Whether a name has a value. -/
def contains (context : Context) (name : String) : Bool :=
  context.bindings.contains name

/-- The context in which a name has a new value and all others keep theirs. -/
def insert (context : Context) (name : String) (value : Value) : Context :=
  ⟨context.bindings.insert name value⟩

/-- The context of the given pairs; of two pairs with one name the later one counts. -/
def ofPairs (pairs : List (String × Value)) : Context :=
  pairs.foldl (fun context pair => context.insert pair.1 pair.2) { }

/-- The number of names that have a value. -/
def size (context : Context) : Nat :=
  context.bindings.size

/-- The value of a path: that of its name, then attribute by attribute, and nothing as soon as
one of them is missing. -/
def resolve (context : Context) (identifier : Identifier) : Value :=
  (identifier.attributes.foldl (fun found name => found.bind (Value.attribute? name))
    (context.find? identifier.name)).getD .null

@[simp] theorem find?_insert (context : Context) (name other : String) (value : Value) :
    (context.insert name value).find? other =
      if other = name then some value else context.find? other :=
  context.bindings.find?_insert name other value

end Context

end Stencil
