import UmlText.Model.Element

/-!
# Relationship blueprints

A relationship line becomes a blueprint: two declared elements in semantic order and what is
written at each end. Blueprints are realized later, once both elements have a view.
-/

namespace UmlText

/-- A relationship between declared elements that has no model element yet. `end1` describes the
source and `end2` the target. -/
structure Blueprint where
  kind : RelationshipKind
  source : ElementId
  target : ElementId
  label : Option String := none
  end1 : EndSpec := {}
  end2 : EndSpec := {}
deriving DecidableEq, Repr, Inhabited

namespace Blueprint

/-- Whether a blueprint joins `a` and `b`, in either direction. -/
def connects (b : Blueprint) (x y : ElementId) : Bool :=
  (b.source = x && b.target = y) || (b.source = y && b.target = x)

end Blueprint

end UmlText
