import UmlText.Reading.Blueprint

/-!
# The order of actors

A generalization between two actors makes its source a child of its target. `orderActors` lists
every actor once, with its depth, so that a parent stands before its children and the children in
the order their generalizations were written. Actors without a parent come first; an actor that can
be reached only through a cycle starts anew.
-/

namespace UmlText

/-- The generalizations between listed actors, as pairs of a parent and its child. -/
def actorEdges (actors : List ElementId) (blueprints : List Blueprint) :
    List (ElementId × ElementId) :=
  blueprints.filterMap fun b =>
    if b.kind = .generalization ∧ b.source ∈ actors ∧ b.target ∈ actors then
      some (b.target, b.source)
    else
      none

/-- The children of an actor, once for each generalization, oldest first. -/
def childrenIn (edges : List (ElementId × ElementId)) (actor : ElementId) : List ElementId :=
  edges.filterMap fun (parent, child) => if parent = actor then some child else none

/-- Takes actors from a stack, top first. An actor that is still `remaining` is listed, and its
remaining children go on the stack one level deeper. -/
def visitActors (edges : List (ElementId × ElementId)) (remaining : List ElementId)
    (stack : List (ElementId × Nat)) : List (ElementId × Nat) :=
  match stack with
  | [] => []
  | (actor, depth) :: stack =>
    if _h : actor ∈ remaining then
      let rest := remaining.erase actor
      let children := (childrenIn edges actor).filter (· ∈ rest)
      (actor, depth) :: visitActors edges rest (children.map (·, depth + 1) ++ stack)
    else
      visitActors edges remaining stack
termination_by (remaining.length, stack.length)
decreasing_by
  · apply Prod.Lex.left
    have := List.length_erase_of_mem _h
    have := List.length_pos_of_mem _h
    omega
  · apply Prod.Lex.right
    simp

/-- Every actor of the list once, with its depth in the hierarchy, parents before children. -/
def orderActors (actors : List ElementId) (blueprints : List Blueprint) :
    List (ElementId × Nat) :=
  let nodes := actors.eraseDups
  let edges := actorEdges nodes blueprints
  let roots := nodes.filter fun actor => actor ∉ edges.map Prod.snd
  visitActors edges nodes ((roots ++ nodes).map (·, 0))

end UmlText
