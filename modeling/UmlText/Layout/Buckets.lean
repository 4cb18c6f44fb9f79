import UmlText.OrderedMap
import UmlText.Reading.Blueprint

/-!
# Use cases by their actors

A use case belongs to one actor, is shared by several, or is an orphan. Every blueprint between an
actor and a use case counts, in either direction.
-/

namespace UmlText

/-- Use cases grouped by how many actors they are related to. -/
structure UseCaseBuckets where
  /-- The use cases of a single actor, by that actor. -/
  exclusive : OrderedMap ElementId (List ElementId) := {}
  /-- The use cases of several actors. -/
  shared : List ElementId := []
  /-- The use cases without an actor. -/
  orphans : List ElementId := []
deriving Repr

/-- The use cases of `actor` alone. -/
def UseCaseBuckets.exclusiveOf (b : UseCaseBuckets) (actor : ElementId) : List ElementId :=
  (b.exclusive.get? actor).getD []

/-- Adds an actor to those of a use case, once. -/
def linkActor (links : OrderedMap ElementId (List ElementId)) (actor useCase : ElementId) :
    OrderedMap ElementId (List ElementId) :=
  links.alter useCase fun known =>
    let known := known.getD []
    if actor ∈ known then known else known ++ [actor]

/-- The distinct actors of each use case, collected over all blueprints. -/
def linkedActors (actors useCases : List ElementId) (blueprints : List Blueprint) :
    OrderedMap ElementId (List ElementId) :=
  let link (links : OrderedMap ElementId (List ElementId)) (actor useCase : ElementId) :=
    if actor ∈ actors ∧ useCase ∈ useCases then linkActor links actor useCase else links
  blueprints.foldl (fun links b => link (link links b.source b.target) b.target b.source) {}

/-- Puts a use case with the given actors into its bucket. -/
def UseCaseBuckets.add (b : UseCaseBuckets) (useCase : ElementId) :
    List ElementId → UseCaseBuckets
  | [] => { b with orphans := b.orphans ++ [useCase] }
  | [actor] =>
    { b with exclusive := b.exclusive.alter actor fun known => known.getD [] ++ [useCase] }
  | _ :: _ :: _ => { b with shared := b.shared ++ [useCase] }

/-- Puts every use case into the bucket for its number of actors. -/
def bucketUseCases (actors useCases : List ElementId) (blueprints : List Blueprint) :
    UseCaseBuckets :=
  let links := linkedActors actors useCases blueprints
  useCases.foldl (fun b useCase => b.add useCase ((links.get? useCase).getD [])) {}

/-- What the blueprints of a use case relate it to, each element once, in the order of the
blueprints. -/
def connectedActors (useCase : ElementId) (blueprints : List Blueprint) : List ElementId :=
  (blueprints.filterMap fun b =>
    if b.source = useCase then some b.target
    else if b.target = useCase then some b.source
    else none).eraseDups

end UmlText
