import Mathlib.Data.List.Forall2
import UmlText.Proofs.Layout.Granting

/-!
# UmlText.Proofs.Layout.Spots

**Placing elements at given spots.** What a strategy asks for can often be told before anything is
placed: a list of spots, each an element with its position and its width. A run over such a list
adds entries that fill some of the spots, in order (`Awaiting.fills_placeSpots`), and on a workspace
that knows the diagram all of them (`Awaiting.fills_granted`).
-/

namespace UmlText

universe u

open BackedStore (workspace)
open Placement (Awaiting Running Tries)

variable {σ : Type u} [ModelStore σ] [ViewStore σ] [BackedStore σ]

/-- Where an element is to stand, and how wide. -/
structure Spot where
  element : ElementId
  position : Point
  width : Option Int := none
deriving DecidableEq, Repr

/-- An entry that stands at a spot, as high as views of its element are. -/
structure Fills (start : Workspace) (e : LayoutEntry) (spot : Spot) : Prop where
  element_eq : e.element = spot.element
  position_eq : e.position = spot.position
  size_eq : ∃ model, start.element? spot.element = some model ∧
    e.size = ⟨spot.width.getD (Workspace.nodeSize model).width, (Workspace.nodeSize model).height⟩

/-- In lists that match one by one, each member of the first matches one of the second. -/
theorem exists_of_forall₂ {α β : Type} {R : α → β → Prop} {as : List α} {bs : List β}
    (h : List.Forall₂ R as bs) {a : α} (ha : a ∈ as) : ∃ b ∈ bs, R a b := by
  induction h with
  | nil => cases ha
  | cons hmatch _ ih =>
      rcases List.mem_cons.1 ha with rfl | hrest
      · exact ⟨_, List.mem_cons_self, hmatch⟩
      · obtain ⟨b, hb, hmatches⟩ := ih hrest
        exact ⟨b, List.mem_cons_of_mem _ hb, hmatches⟩

namespace Placement

/-- Places an element at its spot. -/
def placeSpot (p : Placement σ) (spot : Spot) : Placement σ :=
  (p.place spot.element spot.position spot.width).2

/-- Places elements at their spots, one after the other. -/
def placeSpots (p : Placement σ) (spots : List Spot) : Placement σ :=
  spots.foldl placeSpot p

variable {start : Workspace} {p : Placement σ} {spots more : List Spot} {spot : Spot}

omit [BackedStore σ] in
theorem placeSpots_append : p.placeSpots (spots ++ more) = (p.placeSpots spots).placeSpots more :=
  List.foldl_append

omit [BackedStore σ] in
theorem tries_placeSpots (p : Placement σ) (spots : List Spot) :
    Tries p (spots.map Spot.element) (p.placeSpots spots) :=
  Tries.foldl_each id Spot.element (fun _ _ => Tries.one ..) spots p

theorem Running.nameOf_eq (h : Running start p) (element : ElementId) :
    p.nameOf element = ModelStore.nameOf start element := by
  simp only [nameOf, ModelStore.nameOf, BackedStore.element?_eq,
    h.element?_eq, BackedStore.workspace_self]

namespace Awaiting

theorem afterSpot {es : List ElementId} (spot : Spot)
    (h : Awaiting start p (spot.element :: es)) : Awaiting start (p.placeSpot spot) es :=
  h.place spot.position spot.width

/-- What is still to be placed after some spots. -/
theorem afterSpots {es : List ElementId} (h : Awaiting start p (spots.map Spot.element ++ es)) :
    Awaiting start (p.placeSpots spots) es := by
  induction spots generalizing p with
  | nil => exact h
  | cons spot rest ih => exact ih (h.afterSpot spot)

theorem of_append {es fs : List ElementId} (h : Awaiting start p (es ++ fs)) :
    Awaiting start p es := by
  have hsub : (p.views.keys ++ es).Sublist (p.views.keys ++ (es ++ fs)) :=
    (List.sublist_append_left es fs).append_left _
  exact ⟨h.running, h.nodup.sublist hsub, h.owners.sublist hsub⟩

/-- A spot is filled, or its element is skipped. -/
theorem fills_place {rest : List ElementId} (h : Awaiting start p (spot.element :: rest)) :
    ((p.place spot.element spot.position spot.width).1 = none ∧
      (p.placeSpot spot).entries = p.entries) ∨
    ∃ e, (p.place spot.element spot.position spot.width).1 = some e.view ∧
      (p.placeSpot spot).entries = p.entries ++ [e] ∧ Fills start e spot := by
  rcases place_cases p h.running.view_lt spot.element spot.position spot.width with
    ⟨store, hw, hp⟩ | ⟨model, store, hgrants, hw, hp⟩
  · rw [placeSpot, hp]
    exact .inl ⟨rfl, entries_congr hw rfl⟩
  · rw [placeSpot, hp]
    have hmodel : start.element? spot.element = some model :=
      (h.running.element?_eq spot.element).symm.trans hgrants.model
    exact .inr ⟨_, rfl, entries_withView h.running h.not_mem_keys rfl hw, rfl, rfl,
      model, hmodel, rfl⟩

/-- Whatever is placed on the way fills a spot for its element. -/
theorem fills_tries {q : Placement σ} {es : List ElementId} (h : Awaiting start p es)
    (t : Tries p es q) {e : LayoutEntry} (he : e ∈ q.entries) :
    e ∈ p.entries ∨ ∃ spot : Spot, spot.element ∈ es ∧ Fills start e spot := by
  induction t with
  | done p => exact .inl he
  | @next p q element rest position width _ ih =>
      rcases ih (h.place position width) he with hplaced | ⟨spot, hrest, hfill⟩
      · change e ∈ (p.placeSpot ⟨element, position, width⟩).entries at hplaced
        have hspot : Awaiting start p ((⟨element, position, width⟩ : Spot).element :: rest) := h
        rcases hspot.fills_place with ⟨-, hsame⟩ | ⟨new, -, hnew, hfill⟩
        · exact .inl (hsame ▸ hplaced)
        · rw [hnew, List.mem_append] at hplaced
          refine hplaced.imp_right fun hlast => ?_
          obtain rfl := List.mem_singleton.1 hlast
          exact ⟨_, List.mem_cons_self, hfill⟩
      · exact .inr ⟨spot, List.mem_cons_of_mem _ hrest, hfill⟩

/-- An element that has no spot keeps its view, or still has none. -/
theorem viewOf?_placeSpots (h : Awaiting start p (spots.map Spot.element)) {element : ElementId}
    (helement : element ∉ spots.map Spot.element) :
    (p.placeSpots spots).viewOf? element = p.viewOf? element := by
  induction spots generalizing p with
  | nil => rfl
  | cons spot rest ih =>
      rw [List.map_cons, List.mem_cons, not_or] at helement
      have hstep : (p.placeSpot spot).viewOf? element = p.viewOf? element := by
        rcases place_cases p h.running.view_lt spot.element spot.position spot.width with
          ⟨store, -, hp⟩ | ⟨model, store, -, -, hp⟩
        · rw [placeSpot, hp]
          rfl
        · rw [placeSpot, hp]
          exact (OrderedMap.get?_insert _ _ _ _).trans (if_neg (Ne.symm helement.1))
      exact (ih (h.afterSpot spot) helement.2).trans hstep

/-- An element that is placed has a view then, and one that is skipped has none. -/
theorem isSome_viewOf?_placeSpot {rest : List ElementId}
    (h : Awaiting start p (spot.element :: rest)) :
    ((p.placeSpot spot).viewOf? spot.element).isSome
      = (p.place spot.element spot.position spot.width).1.isSome := by
  rcases place_cases p h.running.view_lt spot.element spot.position spot.width with
    ⟨store, -, hp⟩ | ⟨model, store, -, -, hp⟩
  · rw [placeSpot, hp]
    exact congrArg Option.isSome (OrderedMap.get?_eq_none_iff.2 h.not_mem_keys)
  · rw [placeSpot, hp]
    exact congrArg Option.isSome ((OrderedMap.get?_insert _ _ _ _).trans (if_pos rfl))

/-- **Spots are filled in order**, except those whose elements are skipped. -/
theorem fills_placeSpots (h : Awaiting start p (spots.map Spot.element)) :
    ∃ es, List.SublistForall₂ (Fills start) es spots ∧
      (p.placeSpots spots).entries = p.entries ++ es := by
  induction spots generalizing p with
  | nil => exact ⟨[], .nil, (List.append_nil _).symm⟩
  | cons spot rest ih =>
      obtain ⟨es, hfills, hentries⟩ := ih (h.afterSpot spot)
      change (p.placeSpots (spot :: rest)).entries = (p.placeSpot spot).entries ++ es at hentries
      rcases h.fills_place with ⟨-, hsame⟩ | ⟨e, -, hnew, hfill⟩
      · exact ⟨es, .cons_right hfills, hentries.trans (by rw [hsame])⟩
      · refine ⟨e :: es, .cons hfill hfills, ?_⟩
        rw [hentries, hnew, List.append_assoc]
        rfl

/-- What is added fills one of the spots. -/
theorem fills_of_append (h : Awaiting start p (spots.map Spot.element)) {es : List LayoutEntry}
    (hentries : (p.placeSpots spots).entries = p.entries ++ es) {e : LayoutEntry} (he : e ∈ es) :
    ∃ spot ∈ spots, Fills start e spot := by
  obtain ⟨es', hsome, hplaced⟩ := h.fills_placeSpots
  obtain rfl : es' = es := List.append_cancel_left (hplaced.symm.trans hentries)
  obtain ⟨filled, hfills, hsub⟩ := List.sublistForall₂_iff.1 hsome
  obtain ⟨spot, hspot, hfill⟩ := exists_of_forall₂ hfills he
  exact ⟨spot, hsub.mem hspot, hfill⟩

/-- So what is placed fills one of the spots, unless it was there before. -/
theorem fills_of_mem (h : Awaiting start p (spots.map Spot.element)) {e : LayoutEntry}
    (he : e ∈ (p.placeSpots spots).entries) :
    e ∈ p.entries ∨ ∃ spot ∈ spots, Fills start e spot := by
  obtain ⟨es, -, hentries⟩ := h.fills_placeSpots
  rw [hentries, List.mem_append] at he
  exact he.imp_right fun hadded => h.fills_of_append hentries hadded

/-- Later spots are for other elements, so what is placed for an earlier one is there before. -/
theorem mem_of_append (h : Awaiting start p ((spots ++ more).map Spot.element)) {e : LayoutEntry}
    (he : e ∈ (p.placeSpots (spots ++ more)).entries)
    (helement : e.element ∈ spots.map Spot.element) : e ∈ (p.placeSpots spots).entries := by
  rw [List.map_append] at h
  rw [placeSpots_append] at he
  refine (h.afterSpots.fills_of_mem he).resolve_right fun hlater => ?_
  obtain ⟨spot, hspot, hfill⟩ := hlater
  have hnodup := (List.nodup_append.1 (List.nodup_append.1 h.nodup).2.1).2.2
  exact hnodup _ helement _ (List.mem_map_of_mem hspot) hfill.element_eq

end Awaiting

/-- **Every spot is filled** on a diagram that the workspace knows, if the elements have a kind. -/
theorem Awaiting.fills_granted {p : Placement Workspace}
    (h : Awaiting start p (spots.map Spot.element)) (hdiagram : (start.diagram? p.diagram).isSome)
    (hkinds : ∀ spot ∈ spots, (start.kind? spot.element).isSome) :
    ∃ es, List.Forall₂ (Fills start) es spots ∧ (p.placeSpots spots).entries = p.entries ++ es := by
  obtain ⟨es, hsome, hentries⟩ := h.fills_placeSpots
  obtain ⟨filled, hfills, hsub⟩ := List.sublistForall₂_iff.1 hsome
  obtain ⟨hrunning, -, placed, refused, hkeys, hskipped, hperm⟩ :=
    h.tries (tries_placeSpots p spots)
  have hnone := h.skipped_tries (tries_placeSpots p spots) hdiagram fun e he => by
    obtain ⟨spot, hspot, rfl⟩ := List.mem_map.1 he
    exact hkinds spot hspot
  obtain rfl : refused = [] :=
    List.append_cancel_left (hskipped.symm.trans (hnone.trans (List.append_nil _).symm))
  have hplaced : es.map LayoutEntry.element = placed := by
    rw [← hrunning.map_element, hentries, List.map_append, h.running.map_element] at hkeys
    exact List.append_cancel_left hkeys
  -- As many spots are filled as there are elements, so no spot is left out.
  have hlength : filled.length = spots.length := by
    have hes := congrArg List.length hplaced
    have hall := hperm.length_eq
    rw [List.length_map, hfills.length_eq] at hes
    rw [List.append_nil, List.length_map] at hall
    exact hes.trans hall
  obtain rfl := hsub.eq_of_length hlength
  exact ⟨es, hfills, hentries⟩

/-- So every element that has a spot has a view then. -/
theorem Awaiting.viewOf?_isSome_granted {p : Placement Workspace}
    (h : Awaiting start p (spots.map Spot.element)) (hdiagram : (start.diagram? p.diagram).isSome)
    (hkinds : ∀ spot ∈ spots, (start.kind? spot.element).isSome) (hspot : spot ∈ spots) :
    ((p.placeSpots spots).viewOf? spot.element).isSome := by
  obtain ⟨es, hfills, hentries⟩ := h.fills_granted hdiagram hkinds
  obtain ⟨e, he, hfill⟩ := exists_of_forall₂ hfills.flip hspot
  have hrunning := (h.tries (tries_placeSpots p spots)).1
  refine hrunning.viewOf?_isSome.2 ⟨e, ?_, hfill.element_eq⟩
  rw [hentries]
  exact List.mem_append_right _ he

end Placement

end UmlText
