/-! # Escaping by backslash

Quoted text marks the characters that would end it with a backslash. Which characters are marked
is up to the format, so `escape` takes them as a predicate.
-/

namespace Stencil.Text

/-- Writes a backslash before every special character and keeps all else. -/
def escape (special : Char → Bool) (text : List Char) : List Char :=
  text.flatMap fun c => if special c then ['\\', c] else [c]

@[simp] theorem escape_nil (special : Char → Bool) : escape special [] = [] := rfl

@[simp] theorem escape_cons (special : Char → Bool) (c : Char) (text : List Char) :
    escape special (c :: text) =
      (if special c then ['\\', c] else [c]) ++ escape special text := by
  simp [escape]

@[simp] theorem escape_append (special : Char → Bool) (first second : List Char) :
    escape special (first ++ second) = escape special first ++ escape special second := by
  simp [escape]

/-- Text between two quote characters, with the special characters escaped. -/
def quote (mark : Char) (special : Char → Bool) (text : String) : String :=
  String.ofList (mark :: escape special text.toList ++ [mark])

end Stencil.Text
