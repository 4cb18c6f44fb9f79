import UmlText.Proofs.Reading.Stepping
import UmlText.Proofs.Store.Backed
import UmlText.Proofs.Store.Growth
import UmlText.Proofs.Tables
import UmlText.Reading.Parsed

/-!
# UmlText.Proofs.Reading.Appending

**Reading a text touches new elements only.** All that a reader keeps of the store are the elements
it was given to create: the open blocks, the table of names and the ends of the relationships found
so far. So what it asks the store to change is new, or it is the element that it reads into
(`Reader.Appends`).
-/

namespace UmlText

universe u

open BackedStore (workspace)
open Workspace (Growing IsNew)

variable {σ : Type u} [ModelStore σ] [ViewStore σ] [BackedStore σ]

namespace Reader

/-- A reader into `parent` whose store has grown from `start`, and which refers to new elements. -/
structure Appends (start : Workspace) (parent : ElementId) (r : Reader σ) : Prop where
  growing : Growing start parent (workspace r.store)
  root_eq : r.root = parent
  container_new : ∀ c ∈ r.containers, c.id = parent ∨ start.IsNew c.id
  body_new : ∀ id kind, r.body.map OpenBody.owner = some (.element id kind) → start.IsNew id
  alias_new : ∀ id ∈ r.aliases.values, start.IsNew id
  ends_new : ∀ b ∈ r.blueprints, start.IsNew b.source ∧ start.IsNew b.target

omit [ModelStore σ] [ViewStore σ] [BackedStore σ] in
/-- The ends of a blueprint are the two operands of its line. -/
theorem ends_of_blueprint? {parts : Line.RelationshipLine} {left right : ElementId × ElementKind}
    {b : Blueprint} (h : blueprint? parts left right = some b) :
    (b.source = left.1 ∧ b.target = right.1) ∨ (b.source = right.1 ∧ b.target = left.1) := by
  obtain ⟨meaning, -, rfl⟩ := Option.map_eq_some_iff.1 h
  by_cases hswapped : meaning.swapped
  · exact .inr (by simp [hswapped])
  · exact .inl (by simp [hswapped])

omit [ViewStore σ] [BackedStore σ] in
/-- An operand is found in the table of names. -/
theorem mem_of_resolve? {r : Reader σ} {name : String} {found : ElementId × ElementKind}
    (h : r.resolve? name = some found) : found.1 ∈ r.aliases.values := by
  simp only [resolve?, Option.bind_eq_bind, Option.bind_eq_some_iff] at h
  obtain ⟨id, hid, kind, -, heq⟩ := h
  obtain rfl := Option.some.inj heq
  exact List.mem_map.2 ⟨_, OrderedMap.mem_of_get? hid, rfl⟩

namespace Appends

variable {start : Workspace} {parent : ElementId} {r : Reader σ}

/-- What the next line declares goes below the parent, or below something new. -/
theorem parent_new (h : Appends start parent r) : r.parent = parent ∨ start.IsNew r.parent := by
  rcases r.parent_cases with hroot | ⟨c, hc, hparent⟩
  · exact .inl (hroot.trans h.root_eq)
  · rw [hparent]
    exact h.container_new c hc

/-- The names of a new element stand for it. -/
theorem alias_insert (h : Appends start parent r) {id : ElementId} (hid : start.IsNew id)
    (name : String) : ∀ j ∈ (r.aliases.insert name id).values, start.IsNew j := by
  intro j hj
  rcases OrderedMap.mem_values_insert hj with rfl | hj
  · exact hid
  · exact h.alias_new j hj

theorem alias_enter (h : Appends start parent r) {id : ElementId} (hid : start.IsNew id)
    (aliasName : Option String) (name : String) :
    ∀ j ∈ (enter r.aliases aliasName name id).values, start.IsNew j := by
  intro j hj
  rcases OrderedMap.mem_values_insert hj with rfl | hj
  · exact hid
  · cases aliasName with
    | none => exact h.alias_new j hj
    | some aliasName => exact h.alias_insert hid aliasName j hj

theorem withStore (h : Appends start parent r) {store : σ}
    (hstore : Growing start parent (workspace store)) : Appends start parent { r with store } :=
  { h with growing := hstore }

theorem report (h : Appends start parent r) (span : Text.Span) (issue : Issue) :
    Appends start parent (r.report span issue) :=
  { h with }

/-- The block of a package belongs to the new package, or to the parent if that is refused. -/
theorem openPackage (h : Appends start parent r) (span : Text.Span)
    (header : Line.PackageHeader) : Appends start parent (r.openPackage span header) := by
  have hopened : ∀ id, id = parent ∨ start.IsNew id →
      ∀ c ∈ if header.opens then ⟨id, span⟩ :: r.containers else r.containers,
        c.id = parent ∨ start.IsNew c.id := by
    intro id hid c hc
    split at hc
    · rcases List.mem_cons.1 hc with rfl | hc
      · exact hid
      · exact h.container_new c hc
    · exact h.container_new c hc
  rcases BackedStore.createElement_cases r.store
      { kind := .package, parent := r.parent, name := header.name, isAbstract := false } with
    ⟨error, store, hc, hw⟩ | ⟨owner, store, -, -, hc, hw⟩
  · rw [openPackage_refused hc]
    exact { h with
      growing := hw ▸ h.growing
      container_new := hopened _ h.parent_new }
  · rw [openPackage_granted hc]
    exact { h with
      growing := hw ▸ h.growing.pushElement h.parent_new _ _
      container_new := hopened _ (.inr h.growing.length_le)
      alias_new := h.alias_insert h.growing.length_le _ }

/-- The body of an entity belongs to the new entity, or to none if that is refused. -/
theorem openEntity (h : Appends start parent r) (span : Text.Span)
    (header : Line.EntityHeader) : Appends start parent (r.openEntity span header) := by
  have hopened : ∀ owner, (∀ id kind, owner = .element id kind → start.IsNew id) →
      ∀ id kind, (if header.block = .opened then some ⟨owner, span⟩ else r.body).map
        OpenBody.owner = some (.element id kind) → start.IsNew id := by
    intro owner howner id kind hbody
    split at hbody
    · exact howner id kind (Option.some.inj hbody)
    · exact h.body_new id kind hbody
  rcases BackedStore.createElement_cases r.store
      { kind := header.kind, parent := r.parent, name := header.name,
        isAbstract := header.isAbstract } with
    ⟨error, store, hc, hw⟩ | ⟨owner, store, -, -, hc, hw⟩
  · rw [openEntity_refused hc]
    exact { h with
      growing := hw ▸ h.growing
      body_new := hopened _ (by simp) }
  · rw [openEntity_granted hc]
    refine { h with
      growing := hw ▸ h.growing.pushElement h.parent_new _ _
      body_new := hopened _ fun id kind hid => ?_
      alias_new := h.alias_enter h.growing.length_le _ _ }
    obtain ⟨rfl, -⟩ := BodyOwner.element.inj hid
    exact h.growing.length_le

theorem closeBlock (h : Appends start parent r) (span : Text.Span) :
    Appends start parent (r.closeBlock span) := by
  simp only [Reader.closeBlock]
  split
  · exact { h with body_new := by simp }
  · next _ outer _ hc =>
      exact { h with
        container_new := fun c hmem => h.container_new c (hc ▸ List.mem_cons_of_mem _ hmem) }
  · exact h.report _ _

/-- A member goes to the entity whose body is open, which is new. -/
theorem addMember (h : Appends start parent r) (span : Text.Span) (line : List Char) :
    Appends start parent (r.addMember span line) := by
  have hgrowing : ∀ {id kind member answer store},
      r.body.map OpenBody.owner = some (.element id kind) →
      ModelStore.addMember r.store id member = (answer, store) →
      Growing start parent (workspace store) := by
    intro id kind member answer store howner hanswer
    rcases BackedStore.addMember_cases r.store id member with
      ⟨error, store', hm, hw⟩ | ⟨element, body, store', -, -, hm, hw⟩ <;>
      obtain ⟨-, rfl⟩ := Prod.mk.inj (hanswer.symm.trans hm) <;> rw [hw]
    · exact h.growing
    · exact h.growing.updateElement (h.body_new id kind howner) _
  rcases r.addMember_cases span line with ⟨-, hread⟩ | ⟨id, kind, -, -, hread⟩ |
    ⟨id, kind, member, error, store, howner, -, hm, hread⟩ |
    ⟨id, kind, member, store, howner, -, hm, hread⟩ <;> rw [hread]
  · exact h
  · exact h.report _ _
  · exact (h.withStore (hgrowing howner hm)).report _ _
  · exact h.withStore (hgrowing howner hm)

theorem relate (h : Appends start parent r) (span : Text.Span) (parts : Line.RelationshipLine) :
    Appends start parent (r.relate span parts) := by
  rcases r.relate_cases span parts with ⟨name, -, -, hread⟩ | ⟨left, right, -, -, -, hread⟩ |
    ⟨left, right, blueprint, hleft, hright, hblueprint, hread⟩ <;> rw [hread]
  · exact h.report _ _
  · exact h.report _ _
  · have hleft := h.alias_new _ (mem_of_resolve? hleft)
    have hright := h.alias_new _ (mem_of_resolve? hright)
    refine { h with ends_new := fun b hb => ?_ }
    rcases List.mem_append.1 hb with hb | hb
    · exact h.ends_new b hb
    · obtain rfl := List.mem_singleton.1 hb
      rcases ends_of_blueprint? hblueprint with ⟨hsource, htarget⟩ | ⟨hsource, htarget⟩
      · exact ⟨hsource ▸ hleft, htarget ▸ hright⟩
      · exact ⟨hsource ▸ hright, htarget ▸ hleft⟩

/-- One line touches new elements only. -/
theorem step (h : Appends start parent r) (line : Text.Line) :
    Appends start parent (r.step line) := by
  simp only [Reader.step]
  split
  · exact h
  · exact h.addMember _ _
  · exact h.openPackage _ _
  · exact h.openEntity _ _
  · exact h.closeBlock _
  · exact h.relate _ _
  · exact h.report _ _

theorem readLines (h : Appends start parent r) (lines : List Text.Line) :
    Appends start parent (r.readLines lines) :=
  Reader.readLines_induct (fun _ line _ hr => hr.step line) h

theorem finish (h : Appends start parent r) (stop : Text.Span) :
    Appends start parent (r.finish stop) :=
  ⟨h.growing, h.root_eq, by simp [Reader.finish], by simp [Reader.finish], h.alias_new, h.ends_new⟩

end Appends

/-- A whole text is read below its parent. -/
theorem appends_readText {start : Workspace} {store : σ} {parent : ElementId}
    (h : Growing start parent (workspace store)) (source : List Char) :
    Appends start parent (readText store parent source) := by
  have hstart : Appends start parent ({ store, root := parent } : Reader σ) :=
    ⟨h, rfl, by simp, by simp, by simp [OrderedMap.values], by simp⟩
  exact (hstart.readLines _).finish _

end Reader

/-- What `parse` changes or declares is new, or is the element it reads into. -/
theorem growing_parse {start : Workspace} {store read : σ} {parent : ElementId} {source : String}
    {parsed : Parsed} (h : Growing start parent (workspace store))
    (hparse : parse store parent source = (parsed, read)) :
    Growing start parent (workspace read) ∧
      ∀ b ∈ parsed.blueprints, start.IsNew b.source := by
  obtain ⟨rfl, rfl⟩ := Prod.mk.inj hparse
  have happends := Reader.appends_readText h source.toList
  exact ⟨happends.growing, fun b hb => (happends.ends_new b hb).1⟩

end UmlText
