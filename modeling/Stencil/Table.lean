/-! # Tables

A finite table from keys to values whose entries stand in ascending order of their keys. Contexts,
registries and template stores are tables, and the entries of a map value are kept by the same
insertion. `find?_insert` is the law by which all of them are reasoned about.
-/

namespace Stencil

/-- Entries in ascending order of their keys, each key once. -/
structure Table (κ υ : Type) where
  entries : List (κ × υ) := []

namespace Table

variable {κ υ : Type} [DecidableEq κ] [LT κ] [DecidableLT κ]

/-- Places an entry before the first larger key; an entry with the same key is replaced. -/
def insertEntry (key : κ) (value : υ) : List (κ × υ) → List (κ × υ)
  | [] => [(key, value)]
  | (other, old) :: rest =>
    if key = other then (key, value) :: rest
    else if key < other then (key, value) :: (other, old) :: rest
    else (other, old) :: insertEntry key value rest

/-- The value of the first entry with the given key. -/
def findEntry? (key : κ) : List (κ × υ) → Option υ
  | [] => none
  | (other, value) :: rest => if key = other then some value else findEntry? key rest

/-- The table without entries. -/
def empty : Table κ υ := { }

/-- The value stored under a key. -/
def find? (table : Table κ υ) (key : κ) : Option υ :=
  findEntry? key table.entries

/-- Whether a key has a value. -/
def contains (table : Table κ υ) (key : κ) : Bool :=
  (table.find? key).isSome

/-- The table with a value stored under a key, in place of an earlier one. -/
def insert (table : Table κ υ) (key : κ) (value : υ) : Table κ υ :=
  ⟨insertEntry key value table.entries⟩

/-- The number of entries. -/
def size (table : Table κ υ) : Nat :=
  table.entries.length

@[simp] theorem findEntry?_insertEntry (key other : κ) (value : υ) (entries : List (κ × υ)) :
    findEntry? other (insertEntry key value entries) =
      if other = key then some value else findEntry? other entries := by
  induction entries with
  | nil => rfl
  | cons head rest ih =>
    obtain ⟨name, old⟩ := head
    by_cases same : key = name
    · subst same
      by_cases wanted : other = key <;> simp [insertEntry, findEntry?, wanted]
    · by_cases smaller : key < name
      · simp only [insertEntry, same, smaller, if_true, if_false, findEntry?]
      · simp only [insertEntry, same, smaller, if_false, findEntry?, ih]
        by_cases wanted : other = name
        · subst wanted
          simp [Ne.symm same]
        · simp [wanted]

/-- Storing a value changes the look-up of its own key only. -/
@[simp] theorem find?_insert (table : Table κ υ) (key other : κ) (value : υ) :
    (table.insert key value).find? other =
      if other = key then some value else table.find? other :=
  findEntry?_insertEntry key other value table.entries

omit [LT κ] [DecidableLT κ] in
@[simp] theorem find?_empty (key : κ) : (empty : Table κ υ).find? key = none := rfl

end Table

end Stencil
