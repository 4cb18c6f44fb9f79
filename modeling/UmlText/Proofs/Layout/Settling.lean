import UmlText.Proofs.Layout.Arranging
import UmlText.Proofs.Layout.Coverage

/-!
# UmlText.Proofs.Layout.Settling

**Everything but packages stays where its strategy placed it.** `Settles` says what stands once the
packages are opened and a strategy has placed the rest; from there the packages can be fitted, which
leaves the rest as it is (`Settles.mem_iff`).
-/

namespace UmlText

universe u

open Placement (Awaiting Running Tries)

variable {σ : Type u} [ModelStore σ] [ViewStore σ] [BackedStore σ]

namespace Packages

variable {start : Workspace} {diagram : DiagramId} {roots packages : List ElementId}
  {p q : Placement σ} {es : List LayoutEntry}

/-- A run `q` in which everything but packages has been placed after the packages of `p`. -/
structure Settles (start : Workspace) (p q : Placement σ) (es : List LayoutEntry) : Prop where
  running : Running start q
  entries_eq : q.entries = p.entries ++ es
  kind_of_opened : ∀ e ∈ p.entries, start.kind? e.element = some .package
  kind_of_placed : ∀ e ∈ es, start.kind? e.element ≠ some .package

/-- A run that opens its packages and then tries everything else settles. -/
theorem Opened.settles (h : Opened start diagram roots p packages) (hnodup : roots.Nodup)
    {elements : List ElementId} (t : Tries p elements q)
    (helements : elements.Perm (roots.filter fun e => (start.kind? e).any (· ≠ .package)))
    (hentries : q.entries = p.entries ++ es) : Settles start p q es := by
  obtain ⟨hrunning, -, placed, refused, hkeys, -, hperm⟩ := (h.awaiting hnodup helements).tries t
  refine ⟨hrunning, hentries, ?_, ?_⟩
  · exact fun e he => (h.of_mem_entries he).2
  · intro e he
    have hplaced : es.map LayoutEntry.element = placed := by
      rw [← hrunning.map_element, hentries, List.map_append, h.running.map_element] at hkeys
      exact List.append_cancel_left hkeys
    have hmem := hperm.mem_iff.1 (List.mem_append_left _ (hplaced ▸ List.mem_map_of_mem he))
    have hkind := (List.mem_filter.1 (helements.mem_iff.1 hmem)).2
    intro hpackage
    simp [hpackage] at hkind

/-- The packages of the run are those opened before. -/
theorem Settles.viewOf?_isSome (h : Settles start p q es) (hp : Running start p)
    {package : ElementId} (hkind : start.kind? package = some .package) :
    (q.viewOf? package).isSome = (p.viewOf? package).isSome := by
  rw [Bool.eq_iff_iff, h.running.viewOf?_isSome, hp.viewOf?_isSome, h.entries_eq]
  constructor
  · intro hexists
    obtain ⟨e, he, rfl⟩ := hexists
    rcases List.mem_append.1 he with he | he
    · exact ⟨e, he, rfl⟩
    · exact absurd hkind (h.kind_of_placed e he)
  · intro hexists
    obtain ⟨e, he, rfl⟩ := hexists
    exact ⟨e, List.mem_append_left _ he, rfl⟩

/-- All packages are still to be fitted. -/
theorem Settles.unfitted (h : Settles start p q es) (hp : Opened start diagram roots p packages) :
    Unfitted start q packages := by
  have hmem : ∀ a, a ∈ packages ↔ ∃ e ∈ p.entries, e.element = a := by
    intro a
    rw [hp.packages_perm.mem_iff, ← hp.running.map_element, List.mem_map]
  have hkind : ∀ a ∈ packages, start.kind? a = some .package := by
    intro a ha
    obtain ⟨e, he, rfl⟩ := (hmem a).1 ha
    exact h.kind_of_opened e he
  have hnodup : packages.Nodup := hp.packages_perm.nodup_iff.2 hp.running.keys_nodup
  refine ⟨h.running, hnodup, hp.deepest_first, ?_, ?_⟩
  · intro a ha
    rw [h.viewOf?_isSome hp.running (hkind a ha), hp.running.viewOf?_isSome]
    exact (hmem a).1 ha
  · intro e he
    refine ⟨hkind e.element, ?_⟩
    intro hpackage
    rw [h.entries_eq] at he
    rcases List.mem_append.1 he with he | he
    · exact (hmem _).2 ⟨e, he, rfl⟩
    · exact absurd hpackage (h.kind_of_placed e he)

/-- The packages are fitted around everything else. -/
theorem Settles.fitted (h : Settles start p q es) (hp : Opened start diagram roots p packages)
    (hsolid : ∀ e ∈ es, e.bounds.Solid) (origin : Point) :
    Fitted start q (fit q packages origin {}) := by
  refine (h.unfitted hp).fitted (fun e he hother => ?_) origin
  rw [h.entries_eq] at he
  rcases List.mem_append.1 he with he | he
  · exact absurd (h.kind_of_opened e he) hother
  · exact hsolid e he

/-- Fitting the packages leaves everything else as it is. -/
theorem Settles.mem_iff (h : Settles start p q es) {r : Placement σ} (hr : Intact start q r)
    {e : LayoutEntry} :
    e ∈ r.entries.filter (fun e => start.kind? e.element ≠ some .package) ↔ e ∈ es := by
  simp only [List.mem_filter, decide_eq_true_eq]
  constructor
  · intro hboth
    obtain ⟨he, hkind⟩ := hboth
    have hmem := hr.mem_of_mem he hkind
    rw [h.entries_eq] at hmem
    exact (List.mem_append.1 hmem).resolve_left fun hp => hkind (h.kind_of_opened e hp)
  · intro he
    have hkind := h.kind_of_placed e he
    have hmem : e ∈ q.entries := by
      rw [h.entries_eq]
      exact List.mem_append_right _ he
    obtain ⟨b, hb⟩ := hr.redrawn.exists_reshape hmem
    have hsame := h.running.eq_of_view_eq (hr.mem_of_mem hb hkind) hmem rfl
    rw [hsame] at hb
    exact ⟨hb, hkind⟩

end Packages

end UmlText
