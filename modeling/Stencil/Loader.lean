import Stencil.Error
import Stencil.Table

/-! # Loaders

Templates are found by name. A loader gives the source of a template, nothing for a name that it
does not know, or a failure for one that it cannot read. A template store is a loader whose
templates are added one by one; the first one of a name stays.
-/

namespace Stencil

/-- The source of a named template, if there is one. -/
abbrev Loader := String → Result (Option String)

/-- Templates by their names. -/
structure TemplateStore where
  table : Table String String := { }

namespace TemplateStore

/-- Adds a template whose name is free. -/
def add (store : TemplateStore) (name source : String) : Result TemplateStore :=
  if store.table.contains name then .error (.templateExists name)
  else .ok ⟨store.table.insert name source⟩

/-- The source of a template. -/
def find? (store : TemplateStore) (name : String) : Option String :=
  store.table.find? name

/-- The store as a loader. It never fails. -/
def load (store : TemplateStore) : Loader :=
  fun name => .ok (store.find? name)

end TemplateStore

end Stencil
