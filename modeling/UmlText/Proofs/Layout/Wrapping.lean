import UmlText.Proofs.Layout.Sharing

/-!
# UmlText.Proofs.Layout.Wrapping

**What the rows are below.** The rows of a use case diagram start below the column of actors and
below the last shared use case. The column ends below every actor and every use case of a single
actor (`le_columnEnd`, `row_le_bandHeight`), so the rows are below those. But a shared use case may
stand further down than the last one, and then the rows need not be below it.
-/

namespace UmlText.UseCases

/-! ### The column of actors -/

/-- A band has room for its actor. -/
theorem actor_le_bandHeight (size : Nat) : 80 ≤ bandHeight {} size :=
  Int.le_trans (by decide : (80 : Int) ≤ 225) (Int.le_max_left _ _)

/-- A band has room for every use case of its block. -/
theorem row_le_bandHeight {size index : Nat} (h : index < size) (y : Int) :
    (blockPosition {} y index).y + 60 ≤ y + bandHeight {} size := by
  have hrows : index / 2 + 1 ≤ blockRows {} size := by
    have hcolumns : blockColumns {} = 2 := rfl
    rw [blockRows, hcolumns]
    omega
  have hband : (blockRows {} size : Int) * 150 ≤ bandHeight {} size := Int.le_max_right _ _
  show y + (index / 2 : Nat) * 150 + 60 ≤ y + bandHeight {} size
  omega

theorem columnEnd_cons (buckets : UseCaseBuckets) (y : Int) (o : ElementId × Nat)
    (rest : List (ElementId × Nat)) : columnEnd {} buckets y (o :: rest)
      = columnEnd {} buckets (y + bandHeight {} (buckets.exclusiveOf o.1).length) rest :=
  (Int.add_assoc _ _ _).symm

/-- The column ends below its start. -/
theorem start_le_columnEnd (buckets : UseCaseBuckets) (y : Int) (ordered : List (ElementId × Nat)) :
    y ≤ columnEnd {} buckets y ordered := by
  induction ordered generalizing y with
  | nil => exact Int.le_of_eq (Int.add_zero y).symm
  | cons o rest ih =>
      have hband := actor_le_bandHeight (buckets.exclusiveOf o.1).length
      rw [columnEnd_cons]
      exact Int.le_trans (by omega) (ih _)

/-- The column goes on to its end, below every band. -/
theorem le_columnEnd {buckets : UseCaseBuckets} {ordered : List (ElementId × Nat)} {y : Int}
    {top : (ElementId × Nat) × Int} (h : top ∈ actorTops {} buckets y ordered) :
    top.2 + bandHeight {} (buckets.exclusiveOf top.1.1).length ≤ columnEnd {} buckets y ordered := by
  induction ordered generalizing y with
  | nil => cases h
  | cons o rest ih =>
      rw [columnEnd_cons]
      rcases List.mem_cons.1 h with rfl | h
      · exact start_le_columnEnd buckets _ rest
      · exact ih h

/-! ### The rows -/

/-- The rows in a report: they start at `rows`, the column of actors ends at `column`, and the
shared use cases stand at `tops`. -/
structure Rows (scene : Scene) (report : LayoutReport) (tops : List Int) (column rows : Int) :
    Prop where
  heights_eq : scene.buckets.shared.map report.height? = tops.map some
  column_eq : column = columnEnd {} scene.buckets 100 scene.ordered
  actors_above : ∀ a ∈ scene.actors, ∃ e, report.entryOf? a = some e ∧ e.bounds.maxY ≤ column
  exclusive_above : ∀ a ∈ scene.actors, ∀ u ∈ scene.buckets.exclusiveOf a,
    ∃ e, report.entryOf? u = some e ∧ e.bounds.maxY ≤ column
  /-- Of the shared use cases, only the last one counts. -/
  rows_eq : rows = max column (tops.getLastD 100 + 150)
  rows_below : ∀ u ∈ scene.trailing, ∃ e, report.entryOf? u = some e ∧ rows ≤ e.position.y
  below_shared_iff : (∀ u ∈ scene.trailing, ∀ v ∈ scene.buckets.shared, ∃ e e',
      report.entryOf? u = some e ∧ report.entryOf? v = some e' ∧ e'.bounds.maxY ≤ e.position.y) ↔
    scene.trailing = [] ∨ ∀ y ∈ tops, y + 60 ≤ rows

/-- **The rows of an import** are below all actors, below the use cases of a single actor, and below
the last shared use case. -/
theorem rows_importText {w : Workspace} (h : w.Reachable)
    (hparent : (w.element? (rootParent w)).isSome) {source : String}
    (hkind : detectDiagramKind source = .useCaseDiagram) :
    ∃ tops column rows, Rows (.ofImport (importText w source {})) (importText w source {}).1.layout
      tops column rows := by
  obtain ⟨start, x, hshows⟩ := shows_importText h hparent hkind
  let scene := Scene.ofImport (importText w source {})
  let tops := scene.sharedTops {} (scene.centers {}).get?
  let column := columnEnd {} scene.buckets 100 scene.ordered
  refine ⟨tops, column, max column (tops.getLastD 100 + 150), hshows.heights_shared, rfl, ?_, ?_,
    rfl, fun u hu => hshows.trailing hu, ?_, ?_⟩
  · intro a ha
    obtain ⟨top, htop, rfl⟩ := Scene.exists_actorTop (s := {}) ha
    obtain ⟨e, he, hy, hheight⟩ := hshows.actor htop
    refine ⟨e, he, Int.le_trans ?_ (le_columnEnd htop)⟩
    rw [LayoutEntry.bounds, Point.toBounds, hy, hheight]
    exact Int.add_le_add_left (actor_le_bandHeight _) _
  · intro a ha u hu
    obtain ⟨top, htop, rfl⟩ := Scene.exists_actorTop (s := {}) ha
    obtain ⟨index, hindex, rfl⟩ := List.mem_iff_getElem.1 hu
    obtain ⟨e, he, hposition, hheight⟩ := hshows.exclusive htop (List.getElem?_eq_getElem hindex)
    refine ⟨e, he, Int.le_trans ?_ (le_columnEnd htop)⟩
    rw [LayoutEntry.bounds, Point.toBounds, hposition, hheight]
    exact row_le_bandHeight hindex top.2
  · intro hbelow
    cases htrailing : scene.trailing with
    | nil => exact .inl rfl
    | cons first rest =>
        -- The first of what is left stands where the rows start.
        refine .inr fun y hy => ?_
        obtain ⟨v, hv, e', he', hposition', -, hheight'⟩ := hshows.exists_shared hy
        obtain ⟨e, he, hrows⟩ := hshows.first htrailing
        have hmem : first ∈ scene.trailing := htrailing ▸ List.mem_cons_self
        obtain ⟨b, b', hb, hb', hle⟩ := hbelow first hmem v hv
        obtain rfl := Option.some.inj (he.symm.trans hb)
        obtain rfl := Option.some.inj (he'.symm.trans hb')
        rw [LayoutEntry.bounds, Point.toBounds, hposition', hheight', hrows] at hle
        exact hle
  · intro hclear u hu v hv
    obtain ⟨e, he, hrows⟩ := hshows.trailing hu
    obtain ⟨y, hy, e', he', hposition', -, hheight'⟩ := hshows.exists_top hv
    refine ⟨e, e', he, he', Int.le_trans ?_ hrows⟩
    rw [LayoutEntry.bounds, Point.toBounds, hposition', hheight']
    exact (hclear.resolve_left (List.ne_nil_of_mem hu)) y hy

/-- Shared use cases that are pushed down one after the other, and a last one further up. -/
def pushedText : String :=
  "actor A\nactor B\nactor C\nactor D\n" ++
    "usecase P\nusecase Q\nusecase R\nusecase S\nusecase T\nusecase U\n" ++
    "A -- P\nC -- P\nD -- P\nB -- Q\nD -- Q\nC -- R\nD -- R\nC -- S\nD -- S\nA -- T\nB -- T"

theorem kind_pushedText : detectDiagramKind pushedText = .useCaseDiagram := by decide +kernel

/-- What an import of the text into a new workspace shows. -/
theorem entries_pushedText {run : ImportOutcome × Workspace}
    (hrun : importText (Workspace.new "Model") pushedText {} = run) :
    (Scene.ofImport run).buckets.shared = [⟨5⟩, ⟨6⟩, ⟨7⟩, ⟨8⟩, ⟨9⟩] ∧
      (Scene.ofImport run).trailing = [⟨10⟩] ∧
      [⟨5⟩, ⟨6⟩, ⟨7⟩, ⟨8⟩, ⟨9⟩].map run.1.layout.height?
        = [some 515, some 665, some 815, some 965, some 252] ∧
      run.1.layout.entryOf? ⟨8⟩ = some ⟨⟨8⟩, ⟨7⟩, ⟨800, 965⟩, ⟨120, 60⟩, none⟩ ∧
      run.1.layout.entryOf? ⟨10⟩ = some ⟨⟨10⟩, ⟨9⟩, ⟨100, 1000⟩, ⟨120, 60⟩, none⟩ := by
  subst hrun
  have hflat : ∀ b ∈ (importText (Workspace.new "Model") pushedText {}).1.parsed.blueprints,
      b.kind ≠ .generalization := by decide +kernel
  simp only [Scene.ofImport, importText, layout, placeAll, Strategy.arrange, arrange,
    Packages.openViews_eq_insertionSort] at hflat ⊢
  simp only [orderActors_of_flat _ _ hflat]
  decide +kernel

/-- The last shared use case stands above all others, and the rows start below that one. -/
theorem rows_pushedText :
    (detectDiagramKind pushedText = .useCaseDiagram ∧
      ((Workspace.new "Model").element? (rootParent (Workspace.new "Model"))).isSome) ∧
    ∃ run, importText (Workspace.new "Model") pushedText {} = run ∧
      ∃ column rows, Rows (.ofImport run) run.1.layout [515, 665, 815, 965, 252] column rows := by
  have hparent : ((Workspace.new "Model").element? (rootParent (Workspace.new "Model"))).isSome :=
    rfl
  obtain ⟨tops, column, rows, hrows⟩ := rows_importText (.new "Model") hparent kind_pushedText
  generalize hrun : importText (Workspace.new "Model") pushedText {} = run at hrows
  obtain ⟨hshared, -, hheights, -⟩ := entries_pushedText hrun
  have htops : [515, 665, 815, 965, 252].map some = tops.map some := by
    rw [← hrows.heights_eq, hshared, hheights]
    rfl
  obtain rfl : [515, 665, 815, 965, 252] = tops :=
    List.map_injective_iff.2 (Option.some_injective Int) htops
  exact ⟨⟨kind_pushedText, hparent⟩, run, rfl, column, rows, hrows⟩

/-- An orphan stands above the lower edge of a shared use case. -/
theorem not_below_pushedText :
    detectDiagramKind pushedText = .useCaseDiagram ∧
    ∃ run, importText (Workspace.new "Model") pushedText {} = run ∧
      ¬ ∀ u ∈ (Scene.ofImport run).trailing, ∀ v ∈ (Scene.ofImport run).buckets.shared, ∀ e e',
        run.1.layout.entryOf? u = some e → run.1.layout.entryOf? v = some e' →
          e'.bounds.maxY ≤ e.position.y := by
  generalize hrun : importText (Workspace.new "Model") pushedText {} = run
  obtain ⟨hshared, htrailing, -, hv, hu⟩ := entries_pushedText hrun
  refine ⟨kind_pushedText, run, rfl, fun hall => ?_⟩
  rw [hshared, htrailing] at hall
  exact absurd (hall ⟨10⟩ (by decide) ⟨8⟩ (by decide) _ _ hu hv) (by decide)

end UmlText.UseCases
