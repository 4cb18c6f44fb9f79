import UmlText.Reading.Blueprint
import UmlText.Text.Blank
import UmlText.Text.Search

/-!
# Arrows

What an arrow between two elements means. Arrows are recognized by the pieces they contain, and the
first rule that applies decides:

* `<|--` and `--|>`: a generalization, toward the parent;
* `<|..` and `..|>`: an interface realization, toward the interface;
* `*--` and `--*`: an association, composite at the marked end;
* `o--` and `--o`: an association, shared at the marked end;
* `-->` and `<--`: an association navigable toward the head, but a dependency if the arrow also has
  a dotted head and neither side is an actor or a use case;
* `..>` and `<..`: a dependency, toward the head;
* dashes alone or dots alone, at least two: a plain association.

A label with an include or extend stereotype turns an association or a dependency into an inclusion
or an extension, and is used up by that.
-/

namespace UmlText

/-- The meaning of an arrow between a left and a right operand. -/
structure ArrowMeaning where
  kind : RelationshipKind
  /-- Whether the right operand is the source. -/
  swapped : Bool := false
  /-- What the arrow says about the left operand's end. -/
  left : EndSpec := {}
  /-- What the arrow says about the right operand's end. -/
  right : EndSpec := {}
  /-- What the stereotypes leave of the label. -/
  label : Option String := none
deriving DecidableEq, Repr, Inhabited

namespace ArrowMeaning

/-- A run of at least two dashes or of at least two dots. -/
def isPlainLine (arrow : List Char) : Bool :=
  2 ≤ arrow.length && (arrow.all (· = '-') || arrow.all (· = '.'))

/-- An end with the given aggregation, if it is marked. -/
def aggregatedIf (marked : Bool) (aggregation : Aggregation) : EndSpec :=
  if marked then { aggregation } else {}

/-- The meaning of an arrow before its label is looked at. -/
def ofArrow? (arrow : List Char) (left right : ElementKind) : Option ArrowMeaning :=
  let has (piece : String) : Bool := Text.occursIn piece.toList arrow
  if has "<|--" || has "--|>" then
    some { kind := .generalization, swapped := has "<|--" }
  else if has "<|.." || has "..|>" then
    some { kind := .interfaceRealization, swapped := has "<|.." }
  else if has "*--" || has "--*" then
    some {
      kind := .association
      left := aggregatedIf (has "*--") .composite
      right := aggregatedIf (has "--*") .composite }
  else if has "o--" || has "--o" then
    some {
      kind := .association
      left := aggregatedIf (has "o--") .shared
      right := aggregatedIf (has "--o") .shared }
  else if has "-->" || has "<--" then
    if !(left.isParticipant || right.isParticipant) && (has "..>" || has "<..") then
      some { kind := .dependency, swapped := has "<.." }
    else
      some {
        kind := .association
        left := { navigable := has "<--" }
        right := { navigable := has "-->" } }
  else if has "..>" || has "<.." then
    some { kind := .dependency, swapped := has "<.." }
  else if isPlainLine arrow then
    some { kind := .association }
  else
    none

/-- A label without surrounding white space, none if nothing is left of it. -/
def cleanLabel (label : Option String) : Option String :=
  (label.map fun text => String.ofList (Text.trim text.toList)).filter fun text => text ≠ ""

/-- The kind that the stereotypes of a label ask for. -/
def stereotype? (label : String) : Option RelationshipKind :=
  if Text.occursIn "<<include>>".toList label.toList then some .inclusion
  else if Text.occursIn "<<extend>>".toList label.toList then some .extension
  else none

/-- Adds a label to the meaning of an arrow. -/
def withLabel (m : ArrowMeaning) (label : Option String) : ArrowMeaning :=
  let label := cleanLabel label
  let overridden :=
    if m.kind = .association ∨ m.kind = .dependency then label.bind stereotype? else none
  match overridden with
  | some kind => { m with kind, label := none }
  | none => { m with label }

end ArrowMeaning

/-- The meaning of an arrow and its label between operands of the given kinds, none for an arrow
that no rule covers. -/
def classifyArrow (arrow : String) (left right : ElementKind) (label : Option String) :
    Option ArrowMeaning :=
  (ArrowMeaning.ofArrow? arrow.toList left right).map (·.withLabel label)

end UmlText
