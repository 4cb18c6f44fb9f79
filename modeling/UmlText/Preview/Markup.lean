/-!
# Markup

A tree of elements with attributes, and how it is written: attributes in the order of their names,
and every child on lines of its own. The characters that mean something in markup are written as
entities.
-/

namespace UmlText

/-- A node of a markup document. -/
inductive Markup where
  | element (name : String) (attributes : List (String × String)) (children : List Markup)
  | text (content : String)
deriving Inhabited

namespace Markup

/-- A character of a text between tags. -/
def contentEntity (c : Char) : String :=
  if c = '&' then "&amp;"
  else if c = '<' then "&lt;"
  else if c = '>' then "&gt;"
  else String.singleton c

/-- A character of an attribute value. -/
def attributeEntity (c : Char) : String :=
  if c = '"' then "&quot;"
  else if c.toNat = 39 then "&apos;"
  else contentEntity c

def escapeContent (s : String) : String := String.join (s.toList.map contentEntity)

def escapeAttribute (s : String) : String := String.join (s.toList.map attributeEntity)

/-- The attributes of a tag, sorted by name. -/
def attributesText (attributes : List (String × String)) : String :=
  let sorted := attributes.mergeSort fun a b => a.1 ≤ b.1
  String.join (sorted.map fun (name, value) => s!" {name}=\"{escapeAttribute value}\"")

mutual

/-- A node as text. An element without children is a single tag. -/
def render : Markup → String
  | text content => escapeContent content
  | element name attributes children =>
    let tag := s!"<{name}{attributesText attributes}"
    match children with
    | [] => tag ++ "/>"
    | child :: rest => tag ++ ">" ++ renderChildren (child :: rest) ++ s!"\n</{name}>"

/-- Child nodes as text, a line feed before each. -/
def renderChildren : List Markup → String
  | [] => ""
  | child :: rest => "\n" ++ render child ++ renderChildren rest

end

end Markup

end UmlText
