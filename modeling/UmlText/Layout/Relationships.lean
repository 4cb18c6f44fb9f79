import UmlText.Layout.Placement
import UmlText.Reading.Blueprint
import UmlText.Text.Blank

/-!
# Realizing relationships

A blueprint becomes a relationship element and a relationship view once both of its elements have a
view. The label becomes the name of the element; what is written at the ends is kept for
associations only.
-/

namespace UmlText.Relationships

universe u

variable {σ : Type u} [ModelStore σ] [ViewStore σ]

/-- A relationship element under the label of its blueprint, if there is one. -/
def nameBy (b : Blueprint) (e : Element) : Element :=
  match b.label with
  | some label => e.rename (String.ofList (Text.trim label.toList))
  | none => e

/-- A relationship element with the label of its blueprint, and with its ends if it is an
association. -/
def decorate (b : Blueprint) (e : Element) : Element :=
  if b.kind = .association then (nameBy b e).setEnds b.end1 b.end2 else nameBy b e

/-- Relationships being realized: the views so far, and the number of blueprints left out. -/
structure Realizing (σ : Type u) where
  placement : Placement σ
  created : List RelationshipView := []
  skipped : Nat := 0

/-- Realizes one blueprint, or leaves it out. -/
def realizeNext (r : Realizing σ) (b : Blueprint) : Realizing σ :=
  let p := r.placement
  match p.viewOf? b.source, p.viewOf? b.target with
  | some sourceView, some targetView =>
    let request : NewRelationship :=
      { kind := b.kind, diagram := p.diagram, source := b.source, target := b.target,
        sourceView, targetView }
    match ViewStore.createRelationshipView p.store request with
    | (.ok view, store) =>
      let store := ModelStore.updateElement store view.model (decorate b)
      { r with placement := { p with store }, created := r.created ++ [view] }
    | (.error _, store) =>
      { r with placement := { p with store }, skipped := r.skipped + 1 }
  | _, _ => { r with skipped := r.skipped + 1 }

/-- Realizes blueprints one after the other. -/
def realize (p : Placement σ) (blueprints : List Blueprint) : Realizing σ :=
  blueprints.foldl realizeNext { placement := p }

end UmlText.Relationships
