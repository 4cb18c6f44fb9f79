import UmlText.Proofs.Layout.Reaching
import UmlText.Proofs.Layout.Spacing
import UmlText.Proofs.Layout.Banding
import UmlText.Proofs.Layout.Spreading

/-!
# UmlText.Proofs.Layout.Bounding

**Coordinates grow with the square of a text, at most.** What a text declares is paid for in its
characters. A strategy places it in an area that grows with the characters, and on a grid also with
the packages around each entry; fitting the packages adds room for each package. An entry and a
package around it share the characters of the text, so their product is at most quadratic
(`bounded_importText`).
-/

namespace UmlText

universe u

open BackedStore (workspace)
open Packages (packagesIn reach reach_add_le reach_const_le reach_nonneg roomFor)
open Placement (Awaiting Running)

variable {σ : Type u} [ModelStore σ] [ViewStore σ] [BackedStore σ]

/-! ### Counting -/

/-- Distinct elements take no more characters than any that they are among. -/
theorem Workspace.charges_le {w : Workspace} {ids roots : List ElementId} (h : ids.Nodup)
    (hsub : ∀ id ∈ ids, id ∈ roots) : w.charges ids ≤ ∑ id ∈ roots.toFinset, w.charge id := by
  rw [charges, ← List.sum_toFinset w.charge h]
  refine Finset.sum_le_sum_of_subset fun id hid => ?_
  exact List.mem_toFinset.2 (hsub id (List.mem_toFinset.1 hid))

/-- An entry has no more packages around it than there are: those around it were made before. -/
theorem Keyed.length_le {start : Workspace} {rank : ElementId → Nat} {key : ElementId → List Nat}
    {p : Placement σ} (h : Keyed start rank key p.entries) (hrunning : Running start p)
    {e : LayoutEntry} (he : e ∈ p.entries) :
    (key e.element).length ≤ (packagesIn start p.entries).card := by
  have hone : ∀ u : LayoutEntry, (0 : Int) ≤ 1 := fun _ => by decide
  have hpaid : (key e.element).length + reach start p.entries (fun _ => 1) e
      ≤ (packagesIn start p.entries).card := by
    induction hn : e.view.index using Nat.strongRecOn generalizing e with
    | ind n ih =>
        cases hc : e.container with
        | none =>
            have hall := reach_const_le start p.entries (k := 1) (by decide) e
            rw [h.outermost e he hc]
            simpa using hall
        | some c =>
            obtain ⟨box, hbox, rfl, howner⟩ := hrunning.container_mem he hc
            have hlt := hrunning.container_lt e he _ hc
            have hmore := reach_add_le hone hbox (kind?_of_owningPackage? howner) hlt
            have hbefore := ih box.view.index (hn ▸ hlt) hbox rfl
            rw [h.inner e he box hbox hc, List.length_append, List.length_singleton]
            push_cast
            omega
  have hnonneg := reach_nonneg start p.entries hone e
  omega

/-! ### Where everything is placed -/

namespace Staged

variable {store : σ} {diagram : DiagramId} {parsed : Parsed} {es : List LayoutEntry}
  {e : LayoutEntry}

theorem placeable (h : Staged store diagram parsed {} es) (he : e ∈ es) :
    e.element ∈ parsed.uniqueElements ∧ Placeable (workspace store) e.element := by
  obtain ⟨hroot, hany⟩ := List.mem_filter.1 (h.exists_spot he).1
  exact ⟨hroot, placeable_of_any hany⟩

/-- What is in the report was declared. -/
theorem declared (h : Staged store diagram parsed {} es)
    (he : e ∈ (placeAll store diagram parsed {}).entries) :
    e.element ∈ parsed.uniqueElements ∧ ((workspace store).kind? e.element).isSome := by
  obtain ⟨u, hu, helement, -, -⟩ := h.intact.redrawn.mem_of_mem he
  rw [h.settles.entries_eq] at hu
  rw [← helement]
  rcases List.mem_append.1 hu with hu | hu
  · obtain ⟨hroot, hkind⟩ := h.opened.of_mem_entries hu
    exact ⟨hroot, Option.isSome_of_eq_some hkind⟩
  · exact ⟨(h.placeable hu).1, (h.placeable hu).2.isSome_kind?⟩

theorem nodup_elements (h : Staged store diagram parsed {} es) :
    ((placeAll store diagram parsed {}).entries.map LayoutEntry.element).Nodup :=
  h.intact.redrawn.running.map_element ▸ h.intact.redrawn.running.keys_nodup

/-- Packages and what the strategy has placed take six characters each. -/
theorem length_le (h : Staged store diagram parsed {} es) :
    6 * (es.length
        + (packagesIn (workspace store) (placeAll store diagram parsed {}).entries).card)
      ≤ ∑ id ∈ parsed.uniqueElements.toFinset, (workspace store).charge id := by
  have hcharges := Workspace.charges_le (w := workspace store) h.nodup_elements
    (List.forall_mem_map.2 fun e he => (h.declared he).1)
  have hlength := Workspace.length_le_charges (w := workspace store)
    (List.forall_mem_map.2 fun e he => (h.declared he).2)
  have hpackages : packagesIn (workspace store) (placeAll store diagram parsed {}).entries
      = ((placeAll store diagram parsed {}).entries.filter fun e =>
        !decide ((workspace store).kind? e.element ≠ some .package)).toFinset := by
    ext e
    simp [packagesIn]
  have hall := (placeAll store diagram parsed {}).entries.length_eq_length_filter_add
    fun e => decide ((workspace store).kind? e.element ≠ some .package)
  rw [h.filter_placeAll] at hall
  rw [List.length_map, hall] at hlength
  have hcard := hpackages ▸ List.toFinset_card_le _
  omega

/-- On a grid the packages around each entry are no more than there are. -/
theorem load_le (h : Staged store diagram parsed {} es) :
    Grid.load (workspace store) (Grid.groupKey (openedFor store diagram parsed)
        parsed.uniqueElements) es
      ≤ ∑ id ∈ parsed.uniqueElements.toFinset, (workspace store).charge id + es.length
        * (packagesIn (workspace store) (placeAll store diagram parsed {}).entries).card := by
  have hmem : ∀ e ∈ es, e ∈ (placeAll store diagram parsed {}).entries := by
    intro e he
    rw [← h.filter_placeAll] at he
    exact (List.mem_filter.1 he).1
  have hnodup : (es.map LayoutEntry.element).Nodup := by
    rw [← h.filter_placeAll]
    exact h.nodup_elements.sublist (List.filter_sublist.map _)
  have hcharges := Workspace.charges_le (w := workspace store) hnodup
    (List.forall_mem_map.2 fun e he => (h.placeable he).1)
  have hlevels := List.sum_le_card_nsmul (es.map fun e => (Grid.groupKey
    (openedFor store diagram parsed) parsed.uniqueElements e.element).length) _
    (List.forall_mem_map.2 fun e he => h.keyed.length_le h.intact.redrawn.running (hmem e he))
  rw [List.length_map, Nat.nsmul_eq_mul] at hlevels
  exact Nat.add_le_add hcharges hlevels

/-- An area is enough for all elements and for all packages around each entry. -/
theorem within_area (h : Staged store diagram parsed {} es) (he : e ∈ es) :
    e.bounds.Solid ∧ (areaFor (∑ id ∈ parsed.uniqueElements.toFinset, (workspace store).charge id
      + es.length * (packagesIn (workspace store) (placeAll store diagram parsed {}).entries).card
      )).contains e.bounds := by
  cases hkind : parsed.diagramKind with
  | classDiagram =>
      have hawaiting := h.opened.awaiting (nodup_eraseDups _)
        (Grid.perm_flatMap_members h.opened (nodup_eraseDups _))
      obtain ⟨es', hentries, hwithin⟩ := Grid.within_arrange hawaiting
      have harrange : arrangedFor store diagram parsed {}
          = Grid.arrange (openedFor store diagram parsed) parsed.uniqueElements {} {} := by
        simp only [arrangedFor, hkind, Strategy.ofDiagram, Strategy.arrange]
      have hsettled := h.settles.entries_eq
      rw [harrange, hentries] at hsettled
      obtain rfl := List.append_cancel_left hsettled
      have hstacked := h.stacked hkind ⟨by decide, by decide, by decide, by decide⟩
      have hwidth := hstacked.width_ge e he
      refine ⟨⟨by simp only at hwidth; omega, hstacked.height_pos e he⟩, ?_⟩
      exact Bounds.contains_trans (areaFor_contains h.load_le) (hwithin e he)
  | useCaseDiagram =>
      have harrange : arrangedFor store diagram parsed {} = UseCases.arrange
          (openedFor store diagram parsed) parsed.uniqueElements parsed.blueprints {} := by
        simp only [arrangedFor, hkind, Strategy.ofDiagram, Strategy.arrange]
      have hplaceable : ∀ m ∈ (UseCases.Scene.of (workspace store) parsed.uniqueElements
          parsed.blueprints).elements,
          m ∈ parsed.uniqueElements ∧ Placeable (workspace store) m := by
        intro m hm
        obtain ⟨hroot, hany⟩ := List.mem_filter.1 (h.perm_elements.mem_iff.1 hm)
        exact ⟨hroot, placeable_of_any hany⟩
      obtain ⟨hsolid, hwithin⟩ := (UseCases.within_arrange h.awaiting_elements
        (fun m hm => (hplaceable m hm).2) (harrange ▸ h.mem_arrangedFor he)).resolve_left
          (h.not_mem_openedFor he)
      refine ⟨hsolid, Bounds.contains_trans (areaFor_contains ?_) hwithin⟩
      have hnodup := h.perm_elements.nodup_iff.2 ((nodup_eraseDups _).filter _)
      exact (Workspace.charges_le hnodup fun m hm => (hplaceable m hm).1).trans
        (Nat.le_add_right _ _)

/-- **Everything in the report** is in an area for the elements and for the packages around each
entry, with room around it for each package. -/
theorem within (h : Staged store diagram parsed {} es)
    (he : e ∈ (placeAll store diagram parsed {}).entries) :
    let packages := (packagesIn (workspace store) (placeAll store diagram parsed {}).entries).card
    e.bounds.Solid ∧
      ((areaFor (∑ id ∈ parsed.uniqueElements.toFinset, (workspace store).charge id
        + es.length * packages)).pad (roomFor packages)).contains e.bounds := by
  refine h.unfitted.within_fit (fun u hu hother => ?_) ?_ he
  · rw [h.settles.entries_eq] at hu
    exact h.within_area ((List.mem_append.1 hu).resolve_left fun hopened =>
      hother (h.settles.kind_of_opened u hopened))
  · have horigin : ∀ strategy : Strategy, strategy.origin {} = ⟨100, 100⟩ := fun strategy => by
      cases strategy <;> rfl
    rw [horigin]
    simp only [areaFor, Bounds.contains_iff]
    omega

theorem length_pos (h : Staged store diagram parsed {} es)
    (he : e ∈ (placeAll store diagram parsed {}).entries) :
    0 < es.length
      + (packagesIn (workspace store) (placeAll store diagram parsed {}).entries).card := by
  by_cases hkind : (workspace store).kind? e.element = some .package
  · exact Nat.add_pos_right _ (Finset.card_pos.2 ⟨e, Packages.mem_packagesIn.2 ⟨he, hkind⟩⟩)
  · have hmem : e ∈ es := h.filter_placeAll ▸ List.mem_filter.2 ⟨he, decide_eq_true hkind⟩
    exact Nat.add_pos_left (List.length_pos_of_mem hmem) _

end Staged

/-! ### Imports -/

/-- The numbers of an entry that go on the grid. -/
def LayoutEntry.coordinates (e : LayoutEntry) : List Int :=
  [e.position.x, e.position.y, e.size.width, e.size.height,
    e.position.x + e.size.width, e.position.y + e.size.height]

/-- Packages and other entries share the characters of a text, and so the borders of all packages
around all other entries take the square of its length, at most. -/
theorem mul_le_sq {others packages length : Nat} (h : 6 * (others + packages) ≤ length) :
    144 * (others * packages) ≤ length ^ 2 := by
  calc 144 * (others * packages) = 36 * (4 * others * packages) := by ring
    _ ≤ 36 * (others + packages) ^ 2 := Nat.mul_le_mul_left 36 (four_mul_le_sq_add _ _)
    _ = (6 * (others + packages)) ^ 2 := by ring
    _ ≤ length ^ 2 := Nat.pow_le_pow_left h 2

/-- What is in the area for some characters has no numbers beyond their square. -/
theorem natAbs_coordinate_le {e : LayoutEntry} {charges others packages length : Nat}
    (hsolid : e.bounds.Solid)
    (hwithin : ((areaFor (charges + others * packages)).pad (roomFor packages)).contains e.bounds)
    (hcount : 6 * (others + packages) ≤ charges) (hpos : 0 < others + packages)
    (hcharges : charges ≤ length + 1) {v : Int} (hv : v ∈ e.coordinates) :
    v.natAbs ≤ length ^ 2 + 1000 * (length + 1) := by
  have hsquare := mul_le_sq (hcount.trans hcharges)
  have hexpand : (length + 1) ^ 2 = length ^ 2 + 2 * length + 1 := by ring
  obtain ⟨hwidth, hheight⟩ := hsolid
  rw [hexpand] at hsquare
  simp only [Bounds.contains_iff, Bounds.pad, areaFor, roomFor, LayoutEntry.bounds,
    Point.toBounds] at hwithin hwidth hheight
  push_cast at hwithin
  generalize length ^ 2 = square at *
  generalize hborders : others * packages = borders at *
  simp only [LayoutEntry.coordinates, List.mem_cons, List.not_mem_nil, or_false] at hv
  rcases hv with rfl | rfl | rfl | rfl | rfl | rfl <;> omega

/-- The project of a new workspace was not declared. -/
theorem Workspace.charge_new {name : String} {w : Workspace}
    (h : w.elements = (Workspace.new name).elements) (id : ElementId) : w.charge id = 0 := by
  rcases id with ⟨_ | i⟩ <;> rw [charge, element?, h] <;> rfl

/-- **Coordinates grow with the square of a text, at most.** Whatever is imported into a new
workspace with the usual settings, no number of an entry is further from zero, and up to 45000
characters all of them are on the grid. -/
theorem bounded_importText (name source : String) :
    ∀ e ∈ (importText (Workspace.new name) source {}).1.layout.entries, ∀ v ∈ e.coordinates,
      v.natAbs ≤ source.length ^ 2 + 1000 * (source.length + 1) ∧
        (source.length ≤ 45000 → Saturating.onGrid v) := by
  intro e he v hv
  obtain ⟨start, parsed, read, hreachable, helements, -, hparse, himport⟩ :=
    importText_new name source {}
  have hread := (declares_parse (σ := Workspace) hreachable hparse).1
  obtain ⟨es, hstaged⟩ := exists_staged read hread.numbered ⟨0⟩ parsed {}
  have hpaid := sum_charge_parse start Workspace.root source parsed.uniqueElements.toFinset
  have hnew : ∑ id ∈ parsed.uniqueElements.toFinset, (workspace start).charge id = 0 :=
    Finset.sum_eq_zero fun id _ => Workspace.charge_new helements id
  rw [hparse, hnew, Nat.zero_add] at hpaid
  simp only [himport, entries_layout] at he
  obtain ⟨hsolid, hwithin⟩ := hstaged.within he
  have hbound := natAbs_coordinate_le hsolid hwithin hstaged.length_le (hstaged.length_pos he)
    hpaid hv
  refine ⟨hbound, fun hlength => ?_⟩
  have hsquare : source.length ^ 2 ≤ 45000 ^ 2 := Nat.pow_le_pow_left hlength 2
  generalize source.length ^ 2 = square at hbound hsquare
  rw [Saturating.onGrid, Bool.and_eq_true, decide_eq_true_eq, decide_eq_true_eq]
  simp only [Saturating.lowest, Saturating.highest]
  omega

/-- Packages inside one another, one of them with nothing inside, and one beside them. -/
def crampedText : String :=
  "package P \x7b\npackage Q \x7b\nclass A\n\x7d\npackage R \x7b\n\x7d\n\x7d\npackage S \x7b\n\x7d"

/-- The outermost package starts left of where the grid does. -/
theorem bounded_crampedText :
    let entries := (importText (Workspace.new "Model") crampedText {}).1.layout.entries
    crampedText.length = 63 ∧
      entries.map LayoutEntry.coordinates
        = [[40, 100, 470, 240, 510, 340], [100, 390, 200, 150, 300, 540],
          [70, 160, 160, 135, 230, 295], [280, 160, 200, 150, 480, 310],
          [100, 220, 100, 45, 200, 265]] ∧
      ∀ e ∈ entries, ∀ v ∈ e.coordinates, v.natAbs ≤ 67969 ∧ Saturating.onGrid v := by
  have hlength : crampedText.length = 63 := by decide
  have hbounded := bounded_importText "Model" crampedText
  rw [hlength] at hbounded
  refine ⟨hlength, ?_, fun e he v hv => ?_⟩
  · simp only [importText, layout, placeAll, Packages.openViews_eq_insertionSort, Strategy.arrange,
      Grid.arrange, Grid.groups_eq_insertionSort]
    decide +kernel
  · obtain ⟨hbound, hgrid⟩ := hbounded e he v hv
    exact ⟨hbound, hgrid (by decide)⟩

end UmlText
