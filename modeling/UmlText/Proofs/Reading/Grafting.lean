import UmlText.Proofs.Reading.Appending
import UmlText.Proofs.Store.Grafting

/-!
# UmlText.Proofs.Reading.Grafting

**Reading a text into any workspace.** What a reader does to a new workspace it does to the graft of
it, line by line, under other numbers. A store never refuses what a text declares: the blocks that
are open belong to the project or to packages, and a member line is read as the kind of its owner
asks for. So the diagnostics are about the text alone, and are the same.
-/

namespace UmlText

open Workspace (Ground)

/-! ### Readers under other numbers -/

section Renumber

variable (ρ : Renumbering)

def BodyOwner.renumber : BodyOwner → BodyOwner
  | element id kind => element (ρ.element id) kind
  | refused => refused

def OpenBody.renumber (b : OpenBody) : OpenBody := { b with owner := b.owner.renumber ρ }

def OpenContainer.renumber (c : OpenContainer) : OpenContainer := { c with id := ρ.element c.id }

/-- A reader of the same lines into the graft. -/
def Reader.graft (base : Workspace) (r : Reader Workspace) : Reader Workspace where
  store := base.graft ρ r.store
  root := ρ.element r.root
  containers := r.containers.map (·.renumber ρ)
  body := r.body.map (·.renumber ρ)
  aliases := r.aliases.map id ρ.element
  blueprints := r.blueprints.map (·.renumber ρ)
  diagnostics := r.diagnostics

end Renumber

/-- A member that was read as one of a kind is one for every body of that kind. -/
theorem Line.withMember?_of_member? {kind : ElementKind} {line : List Char} {member : Member}
    {body : Body} (hmember : Line.member? kind line = some member)
    (hkind : body.kind? = some kind) : (body.withMember? member).isSome := by
  have hfeature : ∀ {o : Option Operation} {a : Option Attribute},
      (o.map Member.ofOperation <|> a.map Member.ofAttribute) = some member →
      (∃ o, member = .ofOperation o) ∨ ∃ a, member = .ofAttribute a := by
    intro o a h
    cases o with
    | some o => exact .inl ⟨o, (Option.some.inj h).symm⟩
    | none =>
        obtain ⟨a, -, rfl⟩ := Option.map_eq_some_iff.1 h
        exact .inr ⟨a, rfl⟩
  cases body <;> simp only [Body.kind?, reduceCtorEq, Option.some.injEq] at hkind <;> subst hkind
  case umlClass | interface => rcases hfeature hmember with ⟨o, rfl⟩ | ⟨a, rfl⟩ <;> rfl
  case enumeration =>
      obtain ⟨name, -, rfl⟩ := Option.map_eq_some_iff.1 hmember
      rfl
  all_goals cases hmember

namespace Reader

/-! ### What is read into a new workspace -/

/-- A reader whose open blocks and names are of the kind they were declared as. -/
structure Rooted (r : Reader Workspace) : Prop where
  sprout : r.store.Sprout
  nested : r.store.Nested
  root_eq : r.root = Workspace.root
  container_holds : ∀ c ∈ r.containers, r.store.Holds c.id
  body_kind : ∀ id kind, r.body.map OpenBody.owner = some (.element id kind) →
    r.store.kind? id = some kind
  alias_kind : ∀ id ∈ r.aliases.values, (r.store.kind? id).isSome

namespace Rooted

variable {r : Reader Workspace}

theorem parent_holds (h : r.Rooted) : r.store.Holds r.parent := by
  rcases r.parent_cases with hroot | ⟨c, hc, hparent⟩
  · exact .inl (hroot.trans h.root_eq)
  · rw [hparent]
    exact h.container_holds c hc

theorem withStore (h : r.Rooted) {w : Workspace} (hsprout : w.Sprout) (hnested : w.Nested)
    (hkind : ∀ id, (r.store.kind? id).isSome → w.kind? id = r.store.kind? id) :
    ({ r with store := w } : Reader Workspace).Rooted where
  sprout := hsprout
  nested := hnested
  root_eq := h.root_eq
  container_holds c hc := (h.container_holds c hc).mono hkind
  body_kind id kind hbody := by
    have hknown := h.body_kind id kind hbody
    rw [hkind id (by rw [hknown]; rfl), hknown]
  alias_kind id hid := by
    rw [hkind id (h.alias_kind id hid)]
    exact h.alias_kind id hid

theorem report (h : r.Rooted) (span : Text.Span) (issue : Issue) : (r.report span issue).Rooted :=
  { h with }

theorem register (h : r.Rooted) (name : String) {id : ElementId}
    (hid : (r.store.kind? id).isSome) : (r.register name id).Rooted := by
  refine { h with alias_kind := fun j hj => ?_ }
  rcases OrderedMap.mem_values_insert hj with rfl | hj
  · exact hid
  · exact h.alias_kind j hj

theorem withContainers (h : r.Rooted) {containers : List OpenContainer}
    (hcontainers : ∀ c ∈ containers, r.store.Holds c.id) :
    ({ r with containers } : Reader Workspace).Rooted :=
  { h with container_holds := hcontainers }

theorem withBody (h : r.Rooted) {body : Option OpenBody}
    (hbody : ∀ id kind, body.map OpenBody.owner = some (.element id kind) →
      r.store.kind? id = some kind) : ({ r with body } : Reader Workspace).Rooted :=
  { h with body_kind := hbody }

theorem finish (h : r.Rooted) (stop : Text.Span) : (r.finish stop).Rooted :=
  { h with container_holds := by simp [Reader.finish], body_kind := by simp [Reader.finish] }

end Rooted

/-! ### Line by line -/

section Graft

variable {base : Workspace} {ρ : Renumbering} {r : Reader Workspace}

theorem parent_graft : (r.graft ρ base).parent = ρ.element r.parent := by
  rw [parent, parent, graft]
  cases r.containers <;> rfl

theorem register_graft (name : String) (id : ElementId) :
    (r.graft ρ base).register name (ρ.element id) = (r.register name id).graft ρ base := by
  have haliases := OrderedMap.insert_map (g := ρ.element) Function.injective_id r.aliases name id
  simp only [register, graft]
  exact congrArg (fun aliases => { r.graft ρ base with aliases }) haliases

/-- A declaration is granted, here and there. -/
theorem Rooted.declare (hbase : base.Ground ρ) (h : r.Rooted) (span : Text.Span)
    (kind : ElementKind) (name : String) (isAbstract : Bool) :
    ∃ id store, r.declare span kind name isAbstract = (some id, { r with store }) ∧
      ({ r with store } : Reader Workspace).Rooted ∧ store.kind? id = some kind ∧
      (r.graft ρ base).declare span kind name isAbstract
        = (some (ρ.element id), ({ r with store } : Reader Workspace).graft ρ base) := by
  obtain ⟨owner, howner, hnode⟩ := h.sprout.owner_of_holds h.parent_holds
  have hlt := Workspace.lt_of_element? howner
  let request : NewElement := { kind, parent := r.parent, name, isAbstract }
  have hgranted : ModelStore.createElement r.store request = _ :=
    Workspace.createElement_granted howner hnode
  have hgrafted : ModelStore.createElement (base.graft ρ r.store)
      { request with parent := ρ.element r.parent } = _ :=
    Workspace.createElement_graft hbase h.sprout howner hnode
  refine ⟨r.store.nextElement, (r.store.pushElement r.parent name (.empty kind isAbstract)).2,
    ?_, ?_, ?_, ?_⟩
  · rw [Reader.declare, hgranted]
    rfl
  · exact h.withStore (h.sprout.pushElement hlt _ _)
      (h.nested.pushElement h.parent_holds hlt _ _) fun _ => Workspace.kind?_pushElement
  · exact (Workspace.kind?_pushElement_self _ _ _ _).trans (Body.kind?_empty kind isAbstract)
  · rw [Reader.declare, parent_graft]
    simp only [graft, request] at hgrafted ⊢
    rw [hgrafted]

theorem openPackage_graft (hbase : base.Ground ρ) (h : r.Rooted) (span : Text.Span)
    (header : Line.PackageHeader) :
    (r.openPackage span header).Rooted ∧
      (r.graft ρ base).openPackage span header = (r.openPackage span header).graft ρ base := by
  obtain ⟨id, store, hdeclare, hdeclared, hkind, hgraft⟩ :=
    h.declare hbase span .package header.name false
  have hisSome : (store.kind? id).isSome := by rw [hkind]; rfl
  have hnamed := hdeclared.register (header.aliasName.getD header.name) hisSome
  simp only [openPackage, hdeclare, hgraft, register_graft]
  split
  · refine ⟨hnamed.withContainers fun c hc => ?_, rfl⟩
    rcases List.mem_cons.1 hc with rfl | hc
    · exact .inr hkind
    · exact hnamed.container_holds c hc
  · exact ⟨hnamed, rfl⟩

theorem openEntity_graft (hbase : base.Ground ρ) (h : r.Rooted) (span : Text.Span)
    (header : Line.EntityHeader) :
    (r.openEntity span header).Rooted ∧
      (r.graft ρ base).openEntity span header = (r.openEntity span header).graft ρ base := by
  obtain ⟨id, store, hdeclare, hdeclared, hkind, hgraft⟩ :=
    h.declare hbase span header.kind header.name header.isAbstract
  have hisSome : (store.kind? id).isSome := by rw [hkind]; rfl
  have hopened : ∀ named : Reader Workspace, named.Rooted → named.store = store →
      ({ named with body := some ⟨.element id header.kind, span⟩ } : Reader Workspace).Rooted := by
    intro named hnamed hstore
    refine hnamed.withBody fun j kind hj => ?_
    simp only [Option.map_some, Option.some.injEq, BodyOwner.element.injEq] at hj
    rw [hstore, ← hj.1, ← hj.2, hkind]
  simp only [openEntity, hdeclare, hgraft]
  cases header.aliasName with
  | none =>
      have hnamed := hdeclared.register header.name hisSome
      simp only [register_graft]
      split
      · exact ⟨hopened _ hnamed rfl, rfl⟩
      · exact ⟨hnamed, rfl⟩
  | some aliasName =>
      have hnamed := (hdeclared.register aliasName hisSome).register header.name hisSome
      simp only [register_graft]
      split
      · exact ⟨hopened _ hnamed rfl, rfl⟩
      · exact ⟨hnamed, rfl⟩

theorem closeBlock_graft (h : r.Rooted) (span : Text.Span) :
    (r.closeBlock span).Rooted ∧
      (r.graft ρ base).closeBlock span = (r.closeBlock span).graft ρ base := by
  have hcontainer := h.container_holds
  simp only [closeBlock, graft]
  cases hbody : r.body with
  | some body => exact ⟨h.withBody (by simp), by simp⟩
  | none =>
      cases hc : r.containers with
      | nil => exact ⟨h.report _ _, by simp [report, hbody, hc]⟩
      | cons c outer =>
          have hclosed : ({ r with containers := outer } : Reader Workspace).Rooted :=
            h.withContainers fun c' hmem => hcontainer c' (hc ▸ List.mem_cons_of_mem _ hmem)
          rw [hbody] at hclosed
          exact ⟨hclosed, by simp⟩

/-- A member is granted, here and there. -/
theorem addMember_graft (hbase : base.Ground ρ) (h : r.Rooted) (span : Text.Span)
    (line : List Char) :
    (r.addMember span line).Rooted ∧
      (r.graft ρ base).addMember span line = (r.addMember span line).graft ρ base := by
  have howner : (r.graft ρ base).body.map OpenBody.owner
      = (r.body.map OpenBody.owner).map (·.renumber ρ) := by
    rw [graft, Option.map_map, Option.map_map]
    rfl
  simp only [addMember, howner]
  cases hbody : r.body.map OpenBody.owner with
  | none => exact ⟨h, rfl⟩
  | some owner =>
      cases owner with
      | refused => exact ⟨h, rfl⟩
      | element id kind =>
          simp only [Option.map_some, BodyOwner.renumber]
          -- The line was read as a member of the kind that the owner has, so the owner takes it.
          cases hmember : Line.member? kind line with
          | none => exact ⟨h.report _ _, rfl⟩
          | some member =>
              have hkind := h.body_kind id kind hbody
              obtain ⟨element, helement, hkind'⟩ := Option.bind_eq_some_iff.1 hkind
              obtain ⟨body, hwith⟩ := Option.isSome_iff_exists.1
                (Line.withMember?_of_member? hmember hkind')
              have hid := h.sprout.ne_root (by rw [hkind]; rfl)
              have hgranted : ModelStore.addMember r.store id member = _ :=
                Workspace.addMember_granted helement hwith
              have hgrafted : ModelStore.addMember (base.graft ρ r.store) (ρ.element id) member
                  = _ := Workspace.addMember_graft hbase hid helement hwith
              have hkeeps : ∀ e, r.store.element? id = some e → e.Keeps { e with body } := by
                intro e he
                obtain rfl := Option.some.inj (helement.symm.trans he)
                exact Element.keeps_withMember hwith
              simp only [hgranted]
              refine ⟨h.withStore (h.sprout.updateElement hid fun _ => rfl)
                (h.nested.updateElement hkeeps) fun j _ =>
                  Workspace.kind?_updateElement _ _ _ fun e he => (hkeeps e he).kind?_eq, ?_⟩
              simp only [graft] at hgrafted ⊢
              rw [hgrafted]

theorem resolve?_graft (hbase : base.Ground ρ) (h : r.Rooted) (name : String) :
    (r.graft ρ base).resolve? name
      = (r.resolve? name).map fun found => (ρ.element found.1, found.2) := by
  have hget := OrderedMap.get?_map (g := ρ.element) Function.injective_id r.aliases name
  simp only [resolve?, Option.bind_eq_bind]
  rw [show (r.graft ρ base).aliases.get? name = _ from hget]
  -- Only declared elements are in the table, and none of them is the project.
  cases hid : r.aliases.get? name with
  | none => rfl
  | some id =>
      have hmem : id ∈ r.aliases.values := List.mem_map.2 ⟨_, OrderedMap.mem_of_get? hid, rfl⟩
      have hkind : ModelStore.kind? (r.graft ρ base).store (ρ.element id)
          = ModelStore.kind? r.store id :=
        Workspace.kind?_graft hbase (h.sprout.ne_root (h.alias_kind id hmem))
      simp only [Option.map_some, Option.bind_some, hkind]
      cases ModelStore.kind? r.store id <;> rfl

theorem blueprint?_renumber (parts : Line.RelationshipLine) (left right : ElementId × ElementKind) :
    blueprint? parts (ρ.element left.1, left.2) (ρ.element right.1, right.2)
      = (blueprint? parts left right).map (·.renumber ρ) := by
  simp only [blueprint?, Option.map_map]
  congr 1
  funext meaning
  by_cases hswapped : meaning.swapped <;> simp [hswapped, Blueprint.renumber]

theorem relate_graft (hbase : base.Ground ρ) (h : r.Rooted) (span : Text.Span)
    (parts : Line.RelationshipLine) :
    (r.relate span parts).Rooted ∧
      (r.graft ρ base).relate span parts = (r.relate span parts).graft ρ base := by
  simp only [relate, resolve?_graft hbase h]
  cases r.resolve? parts.left with
  | none => exact ⟨h.report _ _, rfl⟩
  | some left =>
      cases r.resolve? parts.right with
      | none => exact ⟨h.report _ _, rfl⟩
      | some right =>
          simp only [Option.map_some, blueprint?_renumber]
          cases blueprint? parts left right with
          | none => exact ⟨h.report _ _, rfl⟩
          | some blueprint =>
              exact ⟨{ h with }, by simp [graft]⟩

/-- **One line** does to the graft what it does to a new workspace. -/
theorem step_graft (hbase : base.Ground ρ) (h : r.Rooted) (line : Text.Line) :
    (r.step line).Rooted ∧ (r.graft ρ base).step line = (r.step line).graft ρ base := by
  have hopen : (r.graft ρ base).body.isSome = r.body.isSome := Option.isSome_map
  simp only [step, hopen]
  cases LineShape.of r.body.isSome line.text with
  | ignored => exact ⟨h, rfl⟩
  | member => exact addMember_graft hbase h _ _
  | package header => exact openPackage_graft hbase h _ _
  | entity header => exact openEntity_graft hbase h _ _
  | close => exact closeBlock_graft h _
  | relationship parts => exact relate_graft hbase h _ _
  | unknown => exact ⟨h.report _ _, rfl⟩

theorem readLines_graft (hbase : base.Ground ρ) (h : r.Rooted) (lines : List Text.Line) :
    (r.readLines lines).Rooted ∧
      (r.graft ρ base).readLines lines = (r.readLines lines).graft ρ base := by
  induction lines generalizing r with
  | nil => exact ⟨h, rfl⟩
  | cons line rest ih =>
      obtain ⟨hnext, hgraft⟩ := step_graft hbase h line
      have hrest := ih hnext
      rw [← hgraft] at hrest
      exact hrest

theorem finish_graft (stop : Text.Span) :
    (r.graft ρ base).finish stop = (r.finish stop).graft ρ base := by
  have hopened : (r.graft ρ base).openBlocks = r.openBlocks := by
    simp only [openBlocks, graft, Option.map_map, List.map_map]
    rfl
  simp only [finish, hopened]
  rfl

end Graft

end Reader

/-! ### Whole texts -/

/-- **Reading a text** into a graft declares what it declares in a new workspace, and reports the
same. -/
theorem parse_graft {base w read : Workspace} {ρ : Renumbering} (hbase : base.Ground ρ)
    (hsprout : w.Sprout) (hnested : w.Nested) {source : String} {parsed : Parsed}
    (hparse : parse w Workspace.root source = (parsed, read)) :
    read.Sprout ∧ read.Nested ∧ (∀ e ∈ parsed.uniqueElements, (read.kind? e).isSome) ∧
      parse (base.graft ρ w) (ρ.element Workspace.root) source
        = (parsed.renumber ρ, base.graft ρ read) := by
  obtain ⟨rfl, rfl⟩ := Prod.mk.inj hparse
  have hstart : ({ store := w, root := Workspace.root : Reader Workspace }).Rooted :=
    ⟨hsprout, hnested, rfl, by simp, by simp, by simp [OrderedMap.values]⟩
  obtain ⟨hlines, hgraft⟩ :=
    Reader.readLines_graft hbase hstart (Text.locatedLines source.toList)
  have hread := hlines.finish (Text.endSpan source.toList)
  refine ⟨hread.sprout, hread.nested, fun e he =>
    hread.alias_kind e (List.mem_eraseDups.1 he), ?_⟩
  have hreader : Reader.readText (base.graft ρ w) (ρ.element Workspace.root) source.toList
      = (Reader.readText w Workspace.root source.toList).graft ρ base := by
    rw [Reader.readText, Reader.readText, ← Reader.finish_graft, ← hgraft]
    rfl
  rw [parse, hreader]
  rfl

end UmlText
