/-!
# Structural listings

A value shown by the name of its form and the names and values of its fields, in order: the
name alone where there are no fields, and otherwise the name, then the fields in braces.
-/

set_option autoImplicit false

namespace Chip8

/-- What a structural listing shows: a name and its fields, each with the text of its value. -/
structure Listing where
  name : String
  fields : List (String × String) := []
deriving DecidableEq

namespace Listing

/-- One field, a colon and a blank between its name and its value. -/
def fieldText (field : String × String) : String := field.1 ++ ": " ++ field.2

/-- The listing on one line. -/
def text (l : Listing) : String :=
  match l.fields with
  | [] => l.name
  | fields => l.name ++ " \x7b " ++ ", ".intercalate (fields.map fieldText) ++ " \x7d"

/-- A field that holds a number, in decimal. -/
def number (name : String) (value : Nat) : String × String := (name, toString value)

end Listing

end Chip8
