import UmlText.Proofs.Layout.Bucketing
import UmlText.Proofs.Layout.Preorder
import UmlText.Proofs.Layout.Scenes

/-!
# UmlText.Proofs.Layout.Sharing

**The column of shared use cases.** Each shared use case stands at the mean height of its actors, or
a row below the one before it. So neighbours are a row apart (`isChain_sharedTops`), and all are
while the column runs downwards, which it does as long as no mean height is a row or more above the
use case before (`pairwise_sharedTops_iff`). Otherwise the column turns back up, and nothing keeps it
off the use cases further up: of three in a row with the same mean height, the third always comes
closer to the first than a row (`close_sharedTops`).
-/

namespace UmlText.UseCases

/-! ### The heights -/

theorem row_le_spaced (row previous y : Int) :
    row ≤ (spaced row previous y - previous).natAbs := by
  unfold spaced
  split <;> omega

/-- **Neighbours are a row apart.** -/
theorem isChain_followers (row previous : Int) (means : List (Option Int)) :
    (previous :: followers row previous means).IsChain fun y y' => row ≤ (y' - y).natAbs := by
  induction means generalizing previous with
  | nil => exact .singleton _
  | cons mean rest ih => exact (ih _).cons_cons (row_le_spaced row _ _)

theorem isChain_sharedTops (row origin : Int) (means : List (Option Int)) :
    (sharedTops row origin means).IsChain fun y y' => row ≤ (y' - y).natAbs := by
  cases means with
  | nil => exact .nil
  | cons mean rest => exact isChain_followers row _ _

/-- Three equal members at the front of a list. -/
theorem exists_eq_three {mean : Int} {means : List Int} (h : means[0]? = some mean)
    (h' : means[1]? = some mean) (h'' : means[2]? = some mean) :
    ∃ after, means = mean :: mean :: mean :: after := by
  match means, h, h', h'' with
  | _ :: _ :: _ :: after, rfl, rfl, rfl => exact ⟨after, rfl⟩

section Heights

variable {row : Int} (hrow : 0 < row)

include hrow

/-- A use case goes down by a row, unless it wants to stand a row or more further up. -/
theorem add_row_le_spaced_iff {previous y : Int} :
    previous + row ≤ spaced row previous y ↔ previous < y + row := by
  unfold spaced
  split <;> omega

/-- From a place below the height that is wanted, but less than two rows below, two steps lead to a
place less than a row away. -/
theorem spaced_spaced_close {y mean : Int} (hmean : mean ≤ y) (hy : y < mean + 2 * row) :
    (spaced row (spaced row y mean) mean - y).natAbs < row := by
  unfold spaced
  split <;> split <;> omega

/-- What follows wants to stand at a height but may be pushed down by less than two rows. -/
theorem spaced_cases (previous y : Int) :
    y ≤ spaced row previous y ∧ spaced row previous y < y + 2 * row := by
  unfold spaced
  split <;> omega

theorem isChain_followers_iff (previous : Int) (means : List Int) :
    (previous :: followers row previous (means.map some)).IsChain (fun y y' => y + row ≤ y') ↔
      ∀ x ∈ (previous :: followers row previous (means.map some)).zip means, x.1 < x.2 + row := by
  induction means generalizing previous with
  | nil => simp [followers]
  | cons mean rest ih =>
      rw [List.map_cons, followers, Option.getD_some, List.isChain_cons_cons, ih, List.zip_cons_cons,
        List.forall_mem_cons, add_row_le_spaced_iff hrow]

/-- **The column runs downwards** exactly if no mean height is a row or more above the use case
before. -/
theorem pairwise_sharedTops_iff (origin : Int) (means : List Int) :
    (sharedTops row origin (means.map some)).Pairwise (fun y y' => y + row ≤ y') ↔
      ∀ x ∈ (sharedTops row origin (means.map some)).zip means.tail, x.1 < x.2 + row := by
  have : Trans (fun y y' : Int => y + row ≤ y') (fun y y' => y + row ≤ y')
      (fun y y' => y + row ≤ y') := ⟨fun {a b c} hab hbc => by omega⟩
  rw [← List.isChain_iff_pairwise]
  cases means with
  | nil => simp [sharedTops]
  | cons mean rest => exact isChain_followers_iff hrow mean rest

/-- **Of three in a row that want to stand at the same height, the third comes close to the
first.** -/
theorem close_followers {previous mean : Int} {means : List Int} {n : Nat}
    (h : means[n]? = some mean) (h' : means[n + 1]? = some mean) (h'' : means[n + 2]? = some mean) :
    ∃ y y', (followers row previous (means.map some))[n]? = some y ∧
      (followers row previous (means.map some))[n + 2]? = some y' ∧ (y' - y).natAbs < row := by
  induction n generalizing previous means with
  | zero =>
      obtain ⟨after, rfl⟩ := exists_eq_three h h' h''
      obtain ⟨hmean, hy⟩ := spaced_cases hrow previous mean
      exact ⟨_, _, rfl, rfl, spaced_spaced_close hrow hmean hy⟩
  | succ n ih =>
      cases means with
      | nil => cases h
      | cons first rest => exact ih h h' h''

theorem close_sharedTops {origin mean : Int} {means : List Int} {n : Nat}
    (h : means[n]? = some mean) (h' : means[n + 1]? = some mean) (h'' : means[n + 2]? = some mean) :
    ∃ y y', (sharedTops row origin (means.map some))[n]? = some y ∧
      (sharedTops row origin (means.map some))[n + 2]? = some y' ∧ (y' - y).natAbs < row := by
  cases n with
  | zero =>
      obtain ⟨after, rfl⟩ := exists_eq_three h h' h''
      have hclose := spaced_spaced_close hrow (Int.le_refl mean) (by omega)
      exact ⟨mean, _, rfl, rfl, hclose⟩
  | succ n =>
      cases means with
      | nil => cases h
      | cons first rest => exact close_followers hrow h h' h''

end Heights

/-! ### The column -/

theorem mem_connectedActors {blueprints : List Blueprint} {actor useCase : ElementId}
    (h : Linked blueprints actor useCase) : actor ∈ connectedActors useCase blueprints := by
  obtain ⟨b, hb, hconnects⟩ := h
  rw [connectedActors, List.mem_eraseDups]
  refine List.mem_filterMap.2 ⟨b, hb, ?_⟩
  simp only [Blueprint.connects, Bool.or_eq_true, Bool.and_eq_true, decide_eq_true_eq] at hconnects
  rcases hconnects with ⟨rfl, rfl⟩ | ⟨rfl, rfl⟩
  · split
    · next heq => rw [heq]
    · exact if_pos rfl
  · exact if_pos rfl

/-- A shared use case has actors, so it has a mean height. -/
theorem exists_meanHeight {scene : Scene} {s : UseCaseSettings} {useCase : ElementId}
    (h : useCase ∈ scene.buckets.shared) :
    ∃ mean, meanHeight? scene.blueprints (scene.centers s).get? useCase = some mean := by
  rw [Scene.buckets, shared_eq_filter] at h
  obtain ⟨actor, hactor, -, -, -, hlinked, -⟩ := of_decide_eq_true (List.mem_filter.1 h).2
  obtain ⟨top, htop, rfl⟩ := Scene.exists_actorTop (s := s) hactor
  have hmem := List.mem_filterMap.2 ⟨_, mem_connectedActors hlinked, Scene.get?_centers htop⟩
  unfold meanHeight? mean?
  rw [if_neg]
  · exact ⟨_, rfl⟩
  · intro hempty
    rw [List.isEmpty_iff.1 hempty] at hmem
    cases hmem

/-- What members of two lists have in common, pair by pair, the lists have. -/
theorem map_eq_map_of_zip {α β γ : Type} {f : α → γ} {g : β → γ} {as : List α} {bs : List β}
    (hlength : as.length = bs.length) (h : ∀ x ∈ as.zip bs, f x.1 = g x.2) :
    as.map f = bs.map g := by
  rw [← List.map_fst_zip (Nat.le_of_eq hlength), List.map_map]
  conv_rhs => rw [← List.map_snd_zip (Nat.le_of_eq hlength.symm), List.map_map]
  exact List.map_congr_left h

/-- The heights of the shared use cases in a report. -/
theorem Shows.heights_shared {scene : Scene} {start : Workspace} {x : Int} {report : LayoutReport}
    (h : Shows scene start x report) : scene.buckets.shared.map report.height?
      = (scene.sharedTops {} (scene.centers {}).get?).map some := by
  refine map_eq_map_of_zip (scene.length_sharedTops {} _).symm fun placed hplaced => ?_
  obtain ⟨e, he, hposition, -⟩ := h.shared hplaced
  rw [LayoutReport.height?, he, Option.map_some, hposition]

/-- The shared use cases in a report: `means` are the mean heights of their actors, and `tops` are
the heights at which they stand. -/
structure SharedColumn (scene : Scene) (report : LayoutReport) (means tops : List Int) : Prop where
  means_eq : scene.buckets.shared.map (meanHeight? scene.blueprints (scene.center? report))
    = means.map some
  heights_eq : scene.buckets.shared.map report.height? = tops.map some
  /-- Each one stands at its mean height, or a row below the one before it. -/
  tops_eq : tops = sharedTops 150 100 (means.map some)
  neighbours_apart : tops.IsChain fun y y' => (150 : Int) ≤ (y' - y).natAbs
  /-- They are all a row apart, from top to bottom, as long as none wants to stand a row or more
  above the one before. -/
  downwards_iff : tops.Pairwise (fun y y' => y + 150 ≤ y') ↔
    ∀ x ∈ tops.zip means.tail, x.1 < x.2 + 150
  /-- Of three in a row with the same mean height, the third stands less than a row from the
  first. -/
  close : ∀ (n : Nat) (mean : Int), means[n]? = some mean → means[n + 1]? = some mean →
    means[n + 2]? = some mean →
      ∃ y y', tops[n]? = some y ∧ tops[n + 2]? = some y' ∧ ((y' - y).natAbs : Int) < 150
  overlaps_iff : ∀ u ∈ scene.buckets.shared, ∀ v ∈ scene.buckets.shared, ∃ e e',
    report.entryOf? u = some e ∧ report.entryOf? v = some e' ∧
      (e.bounds.overlaps e'.bounds ↔ (e'.position.y - e.position.y).natAbs < 60)

/-- **The column of shared use cases in an import.** -/
theorem sharedColumn_importText {w : Workspace} (h : w.Reachable)
    (hparent : (w.element? (rootParent w)).isSome) {source : String}
    (hkind : detectDiagramKind source = .useCaseDiagram) :
    ∃ means tops, SharedColumn (.ofImport (importText w source {}))
      (importText w source {}).1.layout means tops := by
  obtain ⟨start, x, hshows⟩ := shows_importText h hparent hkind
  let scene := Scene.ofImport (importText w source {})
  let mean := meanHeight? scene.blueprints (scene.centers {}).get?
  let means := scene.buckets.shared.map fun u => (mean u).getD 0
  have hmeans : scene.buckets.shared.map mean = means.map some := by
    rw [List.map_map]
    refine List.map_congr_left fun u hu => ?_
    obtain ⟨y, hy⟩ : ∃ y, mean u = some y := exists_meanHeight hu
    rw [Function.comp_apply, hy, Option.getD_some]
  have htops : scene.sharedTops {} (scene.centers {}).get? = sharedTops 150 100 (means.map some) :=
    congrArg (sharedTops 150 100) hmeans
  have hrow : (0 : Int) < 150 := by decide
  refine ⟨means, sharedTops 150 100 (means.map some), {
    means_eq := by rw [hshows.center?_eq]; exact hmeans
    heights_eq := by rw [← htops]; exact hshows.heights_shared
    tops_eq := rfl
    neighbours_apart := isChain_sharedTops 150 100 _
    downwards_iff := pairwise_sharedTops_iff hrow 100 means
    close := fun n y h h' h'' => close_sharedTops hrow h h' h''
    overlaps_iff := ?_ }⟩
  intro u hu v hv
  obtain ⟨y, -, e, he, hposition, hwidth, hheight⟩ := hshows.exists_top hu
  obtain ⟨y', -, e', he', hposition', hwidth', hheight'⟩ := hshows.exists_top hv
  refine ⟨e, e', he, he', ?_⟩
  rw [Bounds.overlaps_iff]
  simp only [LayoutEntry.bounds, Point.toBounds, hposition, hposition', hheight, hheight']
  omega

/-- Three use cases that the same two actors share. -/
def sharedText : String :=
  "actor A\nactor B\nusecase U\nusecase V\nusecase W\n" ++
    "A -- U\nB -- U\nA -- V\nB -- V\nA -- W\nB -- W"

theorem kind_sharedText : detectDiagramKind sharedText = .useCaseDiagram := by decide +kernel

/-- What an import of the text into a new workspace shows. -/
theorem entries_sharedText {run : ImportOutcome × Workspace}
    (hrun : importText (Workspace.new "Model") sharedText {} = run) :
    (Scene.ofImport run).buckets.shared = [⟨3⟩, ⟨4⟩, ⟨5⟩] ∧
      run.1.layout.entryOf? ⟨3⟩ = some ⟨⟨3⟩, ⟨2⟩, ⟨800, 252⟩, ⟨120, 60⟩, none⟩ ∧
      run.1.layout.entryOf? ⟨4⟩ = some ⟨⟨4⟩, ⟨3⟩, ⟨800, 402⟩, ⟨120, 60⟩, none⟩ ∧
      run.1.layout.entryOf? ⟨5⟩ = some ⟨⟨5⟩, ⟨4⟩, ⟨800, 252⟩, ⟨120, 60⟩, none⟩ := by
  subst hrun
  have hflat : ∀ b ∈ (importText (Workspace.new "Model") sharedText {}).1.parsed.blueprints,
      b.kind ≠ .generalization := by decide +kernel
  simp only [Scene.ofImport, importText, layout, placeAll, Strategy.arrange, arrange,
    Packages.openViews_eq_insertionSort] at hflat ⊢
  simp only [orderActors_of_flat _ _ hflat]
  decide +kernel

/-- The third use case stands as far up as the first one. -/
theorem sharedColumn_sharedText :
    (detectDiagramKind sharedText = .useCaseDiagram ∧
      ((Workspace.new "Model").element? (rootParent (Workspace.new "Model"))).isSome) ∧
    ∃ run, importText (Workspace.new "Model") sharedText {} = run ∧
      ∃ means, SharedColumn (.ofImport run) run.1.layout means [252, 402, 252] := by
  have hparent : ((Workspace.new "Model").element? (rootParent (Workspace.new "Model"))).isSome :=
    rfl
  obtain ⟨means, tops, hcolumn⟩ := sharedColumn_importText (.new "Model") hparent
    kind_sharedText
  generalize hrun : importText (Workspace.new "Model") sharedText {} = run at hcolumn
  obtain ⟨hshared, hu, hv, hw⟩ := entries_sharedText hrun
  have hheights := hcolumn.heights_eq
  simp only [hshared, List.map_cons, List.map_nil, LayoutReport.height?, hu, hv, hw,
    Option.map_some] at hheights
  obtain rfl : [252, 402, 252] = tops := List.map_injective_iff.2 (Option.some_injective Int) hheights
  exact ⟨⟨kind_sharedText, hparent⟩, run, rfl, means, hcolumn⟩

/-- The view of the third use case covers that of the first one. -/
theorem shared_collide_sharedText :
    detectDiagramKind sharedText = .useCaseDiagram ∧
    ∃ run, importText (Workspace.new "Model") sharedText {} = run ∧
      ¬ ∀ u ∈ (Scene.ofImport run).buckets.shared, ∀ v ∈ (Scene.ofImport run).buckets.shared,
        u ≠ v → ∀ e e', run.1.layout.entryOf? u = some e → run.1.layout.entryOf? v = some e' →
          150 ≤ (e'.position.y - e.position.y).natAbs ∧ ¬ e.bounds.overlaps e'.bounds := by
  generalize hrun : importText (Workspace.new "Model") sharedText {} = run
  obtain ⟨hshared, hu, -, hw⟩ := entries_sharedText hrun
  refine ⟨kind_sharedText, run, rfl, fun hall => ?_⟩
  rw [hshared] at hall
  exact absurd (hall ⟨3⟩ (by decide) ⟨5⟩ (by decide) (by decide) _ _ hu hw) (by decide)

end UmlText.UseCases
