/-!
# Configuration values

A configuration is a tree of named values, whatever format it was written in. Fields of a table are
looked up by name; a field that is missing keeps its default, and a field of the wrong type makes
the configuration unusable.
-/

namespace UmlText

/-- A value in a configuration. -/
inductive ConfigValue where
  | table (fields : List (String × ConfigValue))
  /-- A list. One that is `exact` may hold no more values than are asked for; of any other the values
  behind those do not matter. -/
  | list (values : List ConfigValue) (exact : Bool)
  | integer (value : Int)
  | text (value : String)
  | null
  /-- A value of a type that no setting has. -/
  | other
deriving Inhabited, Repr

/-- The fields of a table. -/
abbrev ConfigFields := List (String × ConfigValue)

/-- The fields of a section. A section may also be given as a list of the values of its first
fields, in the order of their keys. -/
def ConfigValue.sectionFields? (keys : List String) : ConfigValue → Option ConfigFields
  | .table fields => some fields
  | .list values exact =>
    if exact && keys.length < values.length then none else some (keys.zip values)
  | _ => none

namespace ConfigFields

/-- An integer between two bounds, or the default where there is none. -/
def integer? (fields : ConfigFields) (key : String) (low high fallback : Int) : Option Int :=
  match fields.lookup key with
  | none => some fallback
  | some (.integer n) => if low ≤ n ∧ n ≤ high then some n else none
  | some _ => none

/-- A text that may be left out or be null. -/
def text? (fields : ConfigFields) (key : String) : Option (Option String) :=
  match fields.lookup key with
  | none | some .null => some none
  | some (.text value) => some (some value)
  | some _ => none

/-- The fields of a section with some keys; a missing section has none. -/
def section? (fields : ConfigFields) (key : String) (keys : List String) :
    Option ConfigFields :=
  match fields.lookup key with
  | none => some []
  | some value => value.sectionFields? keys

end ConfigFields

end UmlText
