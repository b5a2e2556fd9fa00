/-!
# File content

What is found at the path of a file.
-/

set_option autoImplicit false
set_option relaxedAutoImplicit false

namespace TimelineMixer

/-- What is found at a path. -/
inductive FileContent where
  /-- There is no such file. -/
  | missing
  /-- The file cannot be read as text. -/
  | unreadable
  | text (content : String)
  deriving DecidableEq

namespace FileContent

/-- The text, if it can be read. -/
def text? : FileContent → Option String
  | text content => some content
  | _ => none

end FileContent

end TimelineMixer
