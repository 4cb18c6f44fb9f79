import UmlText.Import
import UmlText.Proofs.Layout.Steps
import UmlText.Proofs.Reading.Naming

/-!
# UmlText.Proofs.Import.Current

**Imports land on the current diagram.** A diagram is looked for before anything is read, and the
store may refuse to create one or to open the one that it has just created. A workspace makes a new
diagram the current one when it creates it, so whatever is refused, what is found is the current
diagram of the store (`lands_diagramForImport`). Reading changes neither the diagrams nor which of
them is open, and placing does not either, so it still is after the import. This holds for each of
any number of imports, with other refusals and other selections for each of them
(`imports_landOnCurrent`).
-/

namespace UmlText

universe u

open BackedStore (workspace)
open Placement (IgnoresViews)

variable {σ : Type u} [ModelStore σ] [ViewStore σ] [BackedStore σ]

/-! ### The desk -/

/-- The diagrams of a workspace, and which of them is open. -/
def Workspace.desk (w : Workspace) : List Diagram × Option DiagramId := (w.diagrams, w.current)

theorem Workspace.diagrams_of_desk_eq {w w' : Workspace} (h : w.desk = w'.desk) :
    w.diagrams = w'.diagrams := congrArg Prod.fst h

theorem Workspace.currentDiagram?_of_desk_eq {w w' : Workspace} (h : w.desk = w'.desk) :
    w.currentDiagram? = w'.currentDiagram? := by
  obtain ⟨hdiagrams, hcurrent⟩ := Prod.mk.inj h
  unfold currentDiagram? diagram?
  rw [hdiagrams, hcurrent]

/-- Laying out leaves the desk as it is. -/
theorem desk_layout (store : σ) (diagram : DiagramId) (parsed : Parsed) (s : LayoutSettings) :
    (workspace (layout store diagram parsed s).2).desk = (workspace store).desk := by
  have hviews : IgnoresViews Workspace.desk := ⟨fun _ _ => rfl, fun _ _ _ => rfl⟩
  let start : Placement σ := { store, diagram }
  have hopened := (Packages.tries_openViews start parsed.uniqueElements).tells_eq hviews
  obtain ⟨es, htries, -⟩ := (Strategy.ofDiagram parsed.diagramKind).tries_arrange
    (Packages.openViews start parsed.uniqueElements).1 parsed s (nodup_eraseDups _)
  have harranged := htries.tells_eq hviews
  have hfitted : (workspace (placeAll store diagram parsed s).store).desk
      = (workspace store).desk :=
    (Packages.reshapes_fit _ _ _ _).induct (motive := fun w => w.desk = (workspace store).desk)
      (fun _ _ _ _ hw => hw) (harranged.trans hopened)
  exact Relationships.realize_induct _ _ (motive := fun w => w.desk = (workspace store).desk)
    hfitted fun _ _ _ _ hw _ _ _ _ => hw

/-! ### Reading -/

/-- What a workspace tells whatever elements it has. -/
structure IgnoresElements {α : Type} (tells : Workspace → α) : Prop where
  pushElement : ∀ w parent name body, tells (w.pushElement parent name body).2 = tells w
  updateElement : ∀ w id f, tells (w.updateElement id f) = tells w

namespace IgnoresElements

variable {α : Type} {tells : Workspace → α}

theorem step (h : IgnoresElements tells) (r : Reader σ) (line : Text.Line) :
    tells (workspace (r.step line).store) = tells (workspace r.store) := by
  rcases r.workspace_step_cases line with
    ⟨-, hw⟩ | ⟨request, -, -, hw⟩ | ⟨-, id, member, element, body, -, -, hw⟩
  · rw [hw]
  · rw [hw, h.pushElement]
  · rw [hw, h.updateElement]

theorem readLines (h : IgnoresElements tells) (r : Reader σ) (lines : List Text.Line) :
    tells (workspace (r.readLines lines).store) = tells (workspace r.store) :=
  Reader.readLines_induct
    (motive := fun last => tells (workspace last.store) = tells (workspace r.store))
    (fun last line _ hlast => (h.step last line).trans hlast) rfl

/-- Reading changes elements only. -/
theorem parse (h : IgnoresElements tells) (store : σ) (root : ElementId) (source : String) :
    tells (workspace (UmlText.parse store root source).2) = tells (workspace store) :=
  h.readLines { store, root } _

end IgnoresElements

/-! ### Looking for a diagram -/

/-- How a workspace may change when a diagram is looked for: not at all, or by a new diagram of the
wanted kind, which is open then. -/
def Finds (kind : DiagramKind) (owner : ElementId) (w w' : Workspace) : Prop :=
  w' = w ∨ (∀ d ∈ w.currentDiagram?, d.kind ≠ kind) ∧
    ∃ d : Diagram, d.kind = kind ∧ d.owner = owner ∧ w'.diagrams = w.diagrams ++ [d] ∧
      w'.currentDiagram? = some d

/-- A diagram that was found open is the current one, and a new one is open. -/
theorem finds_new {kind : DiagramKind} {owner : ElementId} {w w' : Workspace}
    (hother : w.currentDiagram?.filter (fun d => d.kind = kind) = none) {d : Diagram}
    (hkind : d.kind = kind) (howner : d.owner = owner) (hdiagrams : w'.diagrams = w.diagrams ++ [d])
    (hcurrent : w'.currentDiagram? = some d) : Finds kind owner w w' := by
  refine .inr ⟨fun d' hd' => ?_, d, hkind, howner, hdiagrams, hcurrent⟩
  simpa using Option.filter_eq_none_iff.1 hother d' hd'

/-- **What is found is the current diagram**, whatever is refused on the way. -/
theorem lands_diagramForImport (store : σ) (kind : DiagramKind) (owner : ElementId) :
    (diagramForImport store kind owner).1
        = (workspace (diagramForImport store kind owner).2).currentDiagram?.map Diagram.id ∧
      Finds kind owner (workspace store) (workspace (diagramForImport store kind owner).2) := by
  unfold diagramForImport ensureDiagram
  rw [BackedStore.currentDiagram?_eq]
  cases hfound : (workspace store).currentDiagram?.filter fun d => d.kind = kind with
  | some current =>
      obtain ⟨hcurrent, -⟩ := Option.filter_eq_some_iff.1 hfound
      exact ⟨by simp [hcurrent], .inl rfl⟩
  | none =>
      rcases BackedStore.createDiagram_cases store kind owner with
        ⟨error, after, hc, hw⟩ | ⟨d, after, hc, hkind, howner, hdiagrams, hcurrent, hd⟩
      · -- The diagram that is open stays open.
        simp only [hc, BackedStore.currentDiagram?_eq]
        exact ⟨trivial, .inl hw⟩
      · have hopen : (workspace after).currentDiagram? = some d := by
          rw [Workspace.currentDiagram?, hcurrent]
          exact hd
        rcases BackedStore.setCurrentDiagram_cases after d.id with
          ⟨error, opened, ho, hw⟩ | ⟨opened, ho, hw⟩
        · -- It was made the current one when it was created.
          simp only [hc, ho, BackedStore.currentDiagram?_eq]
          exact ⟨trivial, finds_new hfound hkind howner (hw ▸ hdiagrams) (hw ▸ hopen)⟩
        · have hopen' : (workspace opened).currentDiagram? = some d := by rw [hw]; exact hd
          simp only [hc, ho, hopen']
          exact ⟨rfl, finds_new hfound hkind howner (hw ▸ hdiagrams) hopen'⟩

/-! ### One import -/

/-- An import, with the store that it starts from. -/
structure ImportCall (σ : Type u) where
  store : σ
  source : String
  settings : LayoutSettings := {}

namespace ImportCall

/-- The kind of diagram that the text asks for. -/
def kind (call : ImportCall σ) : DiagramKind := detectDiagramKind call.source

/-- What the import reports. -/
def outcome (call : ImportCall σ) : ImportOutcome :=
  (importText call.store call.source call.settings).1

/-- The store after the import. -/
def after (call : ImportCall σ) : σ :=
  (importText call.store call.source call.settings).2

/-- What an import does with the diagrams of its store. -/
structure LandsOnCurrent (call : ImportCall σ) : Prop where
  /-- It goes onto the diagram that is the current one afterwards, -/
  outcome_eq : call.outcome.diagram = (ViewStore.currentDiagram? call.after).map Diagram.id
  /-- and says so. -/
  report_eq : call.outcome.layout.diagram = (ViewStore.currentDiagram? call.after).map Diagram.id
  /-- Without one everything is skipped. -/
  unplaced : ViewStore.currentDiagram? call.after = none →
    call.outcome.layout.entries = [] ∧ call.outcome.layout.relationships = [] ∧
      call.outcome.layout.skippedElements = call.outcome.parsed.uniqueElements ∧
      call.outcome.layout.skippedRelationships = call.outcome.parsed.blueprints.length ∧
      (workspace call.after).views = (workspace call.store).views ∧
      (workspace call.after).relationshipViews = (workspace call.store).relationshipViews
  /-- The current diagram is used if it has the kind that the text asks for. -/
  kept : (∃ d, ViewStore.currentDiagram? call.store = some d ∧ d.kind = call.kind) →
    (workspace call.after).diagrams = (workspace call.store).diagrams
  /-- One diagram is created at most. It has that kind, it belongs to the import parent, and it is
  the current one afterwards. -/
  created : (workspace call.after).diagrams = (workspace call.store).diagrams ∨
    ∃ d : Diagram, (workspace call.after).diagrams = (workspace call.store).diagrams ++ [d] ∧
      d.kind = call.kind ∧ d.owner = call.outcome.rootParent ∧
      ViewStore.currentDiagram? call.after = some d
  /-- The import parent is the first selected element, or the project. -/
  rootParent_eq : call.outcome.rootParent
    = (workspace call.store).selection.head?.getD Workspace.root

/-- The diagram that the import goes onto, and the store once it has been looked for. -/
def found (call : ImportCall σ) : Option DiagramId × σ :=
  diagramForImport call.store call.kind (rootParent call.store)

omit [BackedStore σ] in
theorem outcome_diagram (call : ImportCall σ) : call.outcome.diagram = call.found.1 := rfl

omit [BackedStore σ] in
theorem report_diagram (call : ImportCall σ) : call.outcome.layout.diagram = call.found.1 := by
  simp only [outcome, importText, found, kind]
  rcases diagramForImport call.store _ _ with ⟨_ | diagram, opened⟩ <;> rfl

/-- Reading and placing leave the desk as it was found. -/
theorem desk_after (call : ImportCall σ) :
    (workspace call.after).desk = (workspace call.found.2).desk := by
  have hdesk : IgnoresElements Workspace.desk := ⟨fun _ _ _ _ => rfl, fun _ _ _ => rfl⟩
  simp only [after, importText, found, kind, BackedStore.workspace_repaint]
  rcases diagramForImport call.store _ _ with ⟨_ | diagram, opened⟩
  · exact hdesk.parse opened _ _
  · exact (desk_layout _ diagram _ call.settings).trans (hdesk.parse opened _ _)

/-- Without a diagram nothing is placed. -/
theorem unplaced_of_found (call : ImportCall σ) (h : call.found.1 = none) :
    call.outcome.layout = .unplaced call.outcome.parsed ∧
      (workspace call.after).views = (workspace call.found.2).views ∧
      (workspace call.after).relationshipViews = (workspace call.found.2).relationshipViews := by
  have hviews : IgnoresElements Workspace.views := ⟨fun _ _ _ _ => rfl, fun _ _ _ => rfl⟩
  have hrelationships : IgnoresElements Workspace.relationshipViews :=
    ⟨fun _ _ _ _ => rfl, fun _ _ _ => rfl⟩
  simp only [found, kind] at h ⊢
  simp only [outcome, after, importText, BackedStore.workspace_repaint]
  rcases hd : diagramForImport call.store _ _ with ⟨diagram, opened⟩
  rw [hd] at h
  obtain rfl : diagram = none := h
  exact ⟨rfl, hviews.parse opened _ _, hrelationships.parse opened _ _⟩

/-- **An import lands on the current diagram**, whatever is refused. -/
theorem landsOnCurrent (call : ImportCall σ) : call.LandsOnCurrent := by
  obtain ⟨hlands, hfinds⟩ :=
    lands_diagramForImport call.store call.kind (rootParent call.store)
  have hdesk := call.desk_after
  have hcurrent : ViewStore.currentDiagram? call.after
      = (workspace call.found.2).currentDiagram? := by
    rw [BackedStore.currentDiagram?_eq, Workspace.currentDiagram?_of_desk_eq hdesk]
  have hdiagrams := Workspace.diagrams_of_desk_eq hdesk
  refine ⟨?_, ?_, fun hnone => ?_, ?_, ?_, ?_⟩
  · rw [outcome_diagram, hcurrent]
    exact hlands
  · rw [report_diagram, hcurrent]
    exact hlands
  · rw [hcurrent] at hnone
    have hfound : call.found.1 = none := by
      rw [found, hlands, ← found, hnone]
      rfl
    obtain ⟨hlayout, hviews, hrelationships⟩ := call.unplaced_of_found hfound
    rcases hfinds with hsame | ⟨-, d, -, -, -, hopen⟩
    · rw [← hsame, hlayout]
      exact ⟨rfl, rfl, rfl, rfl, hviews, hrelationships⟩
    · cases hnone.symm.trans hopen
  · rintro ⟨d, hd, hkind⟩
    rw [BackedStore.currentDiagram?_eq] at hd
    rcases hfinds with hsame | ⟨hother, -⟩
    · rw [hdiagrams, found, hsame]
    · exact absurd hkind (hother d hd)
  · rcases hfinds with hsame | ⟨-, d, hkind, howner, hnew, hopen⟩
    · exact .inl (by rw [hdiagrams, found, hsame])
    · exact .inr ⟨d, hdiagrams.trans hnew, hkind, howner, hcurrent.trans hopen⟩
  · show rootParent call.store = _
    rw [rootParent, BackedStore.selection_eq, BackedStore.projectRoot_eq]

end ImportCall

/-! ### Any number of imports -/

/-- Imports one after another. Before each of them other elements may be selected, and the host may
have changed what it refuses. -/
inductive Imports : Workspace → List (ImportCall σ) → Workspace → Prop
  | done (w : Workspace) : Imports w [] w
  | next {w w' : Workspace} {call : ImportCall σ} {rest : List (ImportCall σ)}
      (selection : List ElementId) (hstore : workspace call.store = w.select selection)
      (h : Imports (workspace call.after) rest w') : Imports w (call :: rest) w'

/-- **Imports land on the current diagram.** Whatever is imported, selected and refused, in any
number of imports: each of them goes onto the diagram that is the current one afterwards, or onto
none if there is none. The diagrams that are created by all of them have the kinds that the texts
ask for, one for each text at most. -/
theorem imports_landOnCurrent {w w' : Workspace} {calls : List (ImportCall σ)}
    (h : Imports w calls w') :
    (∀ call ∈ calls, call.LandsOnCurrent) ∧
      ∃ created : List Diagram, w'.diagrams = w.diagrams ++ created ∧
        (created.map Diagram.kind).Sublist (calls.map ImportCall.kind) := by
  refine ⟨fun call _ => call.landsOnCurrent, ?_⟩
  induction h with
  | done w => exact ⟨[], (List.append_nil _).symm, .slnil⟩
  | @next w w' call rest selection hstore _ ih =>
      obtain ⟨created, hcreated, hkinds⟩ := ih
      have hbefore : (workspace call.store).diagrams = w.diagrams := by rw [hstore]; rfl
      rw [hcreated]
      rcases call.landsOnCurrent.created with hsame | ⟨d, hnew, hkind, -⟩
      · exact ⟨created, by rw [hsame, hbefore], hkinds.cons _⟩
      · refine ⟨d :: created, by rw [hnew, hbefore, List.append_assoc]; rfl, ?_⟩
        rw [List.map_cons, hkind]
        exact hkinds.cons_cons _

/-- A host that does not open what it creates, and then creates no more diagrams. -/
theorem imports_landOnCurrent_unopened :
    let first : ImportCall Host :=
      { store := { workspace := .new "Model", policy := ({ opening := true } : Refusals).policy }
        source := "class A" }
    let second : ImportCall Host :=
      { store := { workspace := first.after.workspace.select [⟨1⟩]
                   policy := ({ diagrams := true } : Refusals).policy }
        source := "actor B" }
    Imports (.new "Model") [first, second] second.after.workspace ∧
      (∀ call ∈ [first, second], call.LandsOnCurrent) ∧
      first.outcome.diagram = some ⟨0⟩ ∧ second.outcome.diagram = some ⟨0⟩ ∧
      second.after.workspace.diagrams = [⟨⟨0⟩, .classDiagram, Workspace.root⟩] := by
  intro first second
  have himports : Imports (.new "Model") [first, second] second.after.workspace :=
    .next [] rfl (.next [⟨1⟩] rfl (.done _))
  have hlands := (imports_landOnCurrent himports).1
  refine ⟨himports, hlands, by decide +kernel, by decide +kernel, ?_⟩
  exact (Workspace.diagrams_of_desk_eq second.desk_after).trans (by decide +kernel)

end UmlText
