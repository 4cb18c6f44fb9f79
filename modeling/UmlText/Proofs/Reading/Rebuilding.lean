import UmlText.Proofs.Reading.Forest
import UmlText.Proofs.Store.Extending
import UmlText.Reading.Parsed

/-!
# UmlText.Proofs.Reading.Rebuilding

**Reading rebuilds what is written.** A store that refuses nothing is extended by exactly the
elements of the forest that a text spells, and nothing is reported (`parse_rebuilds_forest`). The
induction is on the forest, for every reader without an open body: the lines of a package or of an
entity close every block that they open, so behind them the reader stands where it stood before,
with more in its store.
-/

namespace UmlText

universe u

open BackedStore (workspace)
open Text (Span trim)
open Writing

variable {σ : Type u} [ModelStore σ] [ViewStore σ] [BackedStore σ]

namespace Reader

/-! ### Entities -/

/-- The lines of some members give them to the entity whose body is open. -/
theorem readLines_members {r : Reader σ} {w : Workspace} {parent : ElementId} {name : String}
    {keyword : Keyword} {done : List Member} {opened : Span} (hstore : RefusesNothing r.store)
    (hworkspace : workspace r.store
      = w.extend parent [w.nextElement] [w.newElement parent name (keyword.body done)])
    (hbody : r.body = some ⟨.element w.nextElement keyword.kind, opened⟩)
    {members : List (WrittenMember keyword.kind)} {lines : List Text.Line}
    (hlines : lines.map Text.Line.text = members.map fun m => trim m.line) :
    ∃ store, RefusesNothing store ∧ workspace store
        = w.extend parent [w.nextElement]
          [w.newElement parent name
            (keyword.body (done ++ members.map WrittenMember.member))] ∧
      r.readLines lines = { r with store } := by
  induction members generalizing r done lines with
  | nil =>
      obtain rfl := List.map_eq_nil_iff.1 hlines
      exact ⟨r.store, hstore, by simpa using hworkspace, rfl⟩
  | cons m rest ih =>
      obtain ⟨line, after, rfl, hline, hafter⟩ := List.map_eq_cons_iff.1 hlines
      have hshape : LineShape.of r.body.isSome line.text = .member := by
        rw [hbody, hline]
        exact m.shape
      have howner : (workspace r.store).element? w.nextElement
          = some (w.newElement parent name (keyword.body done)) := by
        rw [hworkspace, Workspace.element?_extend_new]
      -- The reader sees the trimmed line, which is the same member.
      have hread : Line.member? keyword.kind line.text = some m.member :=
        hline ▸ Line.member?_trim m.reads
      obtain ⟨store, hadd, haccepts, hupdated⟩ :=
        hstore.addMember_eq howner (keyword.withMember?_body done hread)
      have hstep : r.step line = { r with store } := by
        rw [step, hshape]
        exact addMember_granted (by rw [hbody]; rfl) hread hadd line.span
      rw [hworkspace, Workspace.updateElement_extend] at hupdated
      obtain ⟨last, hlast, hfinal, hrun⟩ :=
        ih (r := { r with store }) haccepts hupdated hbody hafter
      refine ⟨last, hlast, ?_, ?_⟩
      · simpa using hfinal
      · rw [readLines_cons, hstep, hrun]

omit [ViewStore σ] [BackedStore σ] in
/-- A closing brace closes the body that is open. -/
theorem step_closing_body {r : Reader σ} {body : OpenBody} (hbody : r.body = some body)
    {line : Text.Line} (hline : line.text = trim Forest.closingLine) :
    r.step line = { r with body := none } := by
  have hshape : LineShape.of r.body.isSome line.text = .close := by
    rw [hbody, hline]
    rfl
  rw [step, hshape]
  simp only [closeBlock, hbody]

omit [ViewStore σ] [BackedStore σ] in
/-- Without an open body, a closing brace closes the innermost container. -/
theorem step_closing_container {r : Reader σ} (hbody : r.body = none) (hopen : r.containers ≠ [])
    {line : Text.Line} (hline : line.text = trim Forest.closingLine) :
    r.step line = { r with containers := r.containers.tail } := by
  have hshape : LineShape.of r.body.isSome line.text = .close := by
    rw [hbody, hline]
    rfl
  obtain ⟨container, outer, hcontainers⟩ := List.exists_cons_of_ne_nil hopen
  rw [step, hshape]
  simp only [closeBlock, hbody, hcontainers, List.tail_cons]

/-- The lines behind the header of an entity give it its members and leave no body open. -/
theorem readLines_bodyLines {r : Reader σ} {w : Workspace} {parent : ElementId} {name : String}
    {keyword : Keyword} {opened : Span} (body : Option (List (WrittenMember keyword.kind)))
    (hstore : RefusesNothing r.store)
    (hworkspace : workspace r.store
      = w.extend parent [w.nextElement] [w.newElement parent name (keyword.body [])])
    (hbody : r.body
      = if body.isSome then some ⟨.element w.nextElement keyword.kind, opened⟩ else none)
    {lines : List Text.Line}
    (hlines : lines.map Text.Line.text = (Forest.bodyLines body).map trim) :
    ∃ store, RefusesNothing store ∧ workspace store
        = w.extend parent [w.nextElement]
          [w.newElement parent name (keyword.body (Forest.members body))] ∧
      r.readLines lines = { r with store, body := none } := by
  cases body with
  | none =>
      obtain rfl := List.map_eq_nil_iff.1 hlines
      refine ⟨r.store, hstore, hworkspace, ?_⟩
      rw [readLines_nil, ← (show r.body = none from hbody)]
  | some members =>
      rw [Forest.bodyLines, List.map_append, List.map_map] at hlines
      obtain ⟨front, closing, rfl, hfront, hclosing⟩ := List.map_eq_append_iff.1 hlines
      obtain ⟨line, after, rfl, hline, hafter⟩ := List.map_eq_cons_iff.1 hclosing
      obtain rfl := List.map_eq_nil_iff.1 hafter
      obtain ⟨store, haccepts, hgiven, hrun⟩ :=
        readLines_members hstore hworkspace hbody hfront
      refine ⟨store, haccepts, hgiven, ?_⟩
      rw [readLines_append, hrun, readLines_cons, readLines_nil]
      exact step_closing_body (r := { r with store }) hbody hline

/-- The lines of an entity declare it, and leave no body open. -/
theorem readLines_entity {r : Reader σ} (keyword : Keyword) (head : Head)
    (body : Option (List (WrittenMember keyword.kind))) (hstore : RefusesNothing r.store)
    (hparent : (workspace r.store).CanOwn r.parent) (hbody : r.body = none)
    {lines : List Text.Line} (hlines : lines.map Text.Line.text
      = (headerLine keyword.text head body.isSome :: Forest.bodyLines body).map trim) :
    ∃ store, RefusesNothing store ∧ workspace store
        = (workspace r.store).extend r.parent [(workspace r.store).nextElement]
          [(workspace r.store).newElement r.parent head.name.name
            (keyword.body (Forest.members body))] ∧
      r.readLines lines = { r with
        store
        aliases := enter r.aliases head.aliasName head.name.name
          (workspace r.store).nextElement } := by
  obtain ⟨line, after, rfl, hline, hafter⟩ := List.map_eq_cons_iff.1 hlines
  have hshape : LineShape.of r.body.isSome line.text
      = .entity (entityHeader keyword head body.isSome) := by
    rw [hbody, hline, keyword.trim_headerLine]
    exact shape_entity keyword head body.isSome
  obtain ⟨store, hcreate, haccepts, hcreated⟩ :=
    hstore.createElement_extend hparent keyword.kind head.name.name keyword.isAbstract
  let opened : Reader σ := { r with
    store
    aliases := enter r.aliases head.aliasName head.name.name (workspace r.store).nextElement
    body := if body.isSome then
      some ⟨.element (workspace r.store).nextElement keyword.kind, line.span⟩ else none }
  have hheader : r.step line = opened := by
    rw [step, hshape]
    refine (openEntity_granted hcreate line.span).trans ?_
    simp only [opened, hbody]
    cases body <;> rfl
  rw [← keyword.body_nil] at hcreated
  obtain ⟨last, hlast, hgiven, hrun⟩ :=
    readLines_bodyLines (r := opened) body haccepts hcreated rfl hafter
  refine ⟨last, hlast, hgiven, ?_⟩
  rw [readLines_cons, hheader, hrun, ← hbody]

/-! ### Packages -/

/-- The header of a package declares it and opens its block. -/
theorem step_package {r : Reader σ} {head : Head} (hname : '\x7d' ∉ head.name.name.toList)
    (hstore : RefusesNothing r.store) (hparent : (workspace r.store).CanOwn r.parent)
    (hbody : r.body = none) {line : Text.Line}
    (hline : line.text = trim (headerLine "package" head true)) :
    ∃ store, RefusesNothing store ∧ workspace store
        = (workspace r.store).extend r.parent [(workspace r.store).nextElement]
          [(workspace r.store).newElement r.parent head.name.name .package] ∧
      r.step line = { r with
        store
        aliases := r.aliases.insert (head.aliasName.getD head.name.name)
          (workspace r.store).nextElement
        containers := ⟨(workspace r.store).nextElement, line.span⟩ :: r.containers } := by
  have hshape : LineShape.of r.body.isSome line.text = .package (packageHeader head) := by
    rw [hbody, hline, trim_headerLine (by decide) (by rintro c ⟨⟩; rfl)]
    exact shape_package hname
  obtain ⟨store, hcreate, haccepts, hcreated⟩ :=
    hstore.createElement_extend hparent .package head.name.name false
  refine ⟨store, haccepts, hcreated, ?_⟩
  rw [step, hshape]
  exact openPackage_granted hcreate line.span

/-! ### Forests -/

/-- Reading the lines of a forest outside any body declares its elements below the parent and enters
their names, and every block that it opens is closed again. -/
def Rebuilds (σ : Type u) [ModelStore σ] [ViewStore σ] [BackedStore σ] (forest : Forest) : Prop :=
  ∀ ⦃r : Reader σ⦄ ⦃lines : List Text.Line⦄, RefusesNothing r.store →
    (workspace r.store).CanOwn r.parent → r.body = none →
    lines.map Text.Line.text = forest.lines.map trim →
    ∃ store, RefusesNothing store ∧ workspace store
        = (workspace r.store).extend r.parent
          (forest.roots (workspace r.store).elements.length)
          (forest.elements r.parent (workspace r.store).elements.length) ∧
      r.readLines lines = { r with
        store
        aliases := forest.entered r.aliases (workspace r.store).elements.length }

theorem rebuilds_empty : Rebuilds σ .empty := by
  intro r lines hstore hparent hbody hlines
  obtain rfl := List.map_eq_nil_iff.1 hlines
  exact ⟨r.store, hstore, (Workspace.extend_nil _ _).symm, rfl⟩

/-- Behind lines that close every block they open, a forest goes on from the first number that they
have left. -/
theorem Rebuilds.append {forest : Forest} (hforest : Rebuilds σ forest) {r : Reader σ}
    (hparent : (workspace r.store).CanOwn r.parent) (hbody : r.body = none)
    {front after : List Text.Line} {listed : List ElementId} {added : List Element}
    {aliases : OrderedMap String ElementId} {next : Nat}
    (hnext : next = (workspace r.store).elements.length + added.length)
    (hfront : ∃ store, RefusesNothing store ∧
      workspace store = (workspace r.store).extend r.parent listed added ∧
      r.readLines front = { r with store, aliases })
    (hafter : after.map Text.Line.text = forest.lines.map trim) :
    ∃ store, RefusesNothing store ∧ workspace store
        = (workspace r.store).extend r.parent (listed ++ forest.roots next)
          (added ++ forest.elements r.parent next) ∧
      r.readLines (front ++ after) = { r with
        store
        aliases := forest.entered aliases next } := by
  obtain ⟨store, haccepts, hextended, hread⟩ := hfront
  have hlength : (workspace store).elements.length = next := by
    rw [hextended, Workspace.length_extend, hnext]
  obtain ⟨last, hlast, hmore, hrun⟩ := hforest (r := { r with store, aliases }) haccepts
    (hextended ▸ hparent.extend _ _) hbody hafter
  simp only [hlength] at hmore hrun
  refine ⟨last, hlast, ?_, ?_⟩
  · rw [hmore, hextended]
    exact Workspace.extend_extend hparent.index_lt _ _ _ _
  · rw [readLines_append, hread, hrun]

theorem rebuilds_entity (keyword : Keyword) (head : Head)
    (body : Option (List (WrittenMember keyword.kind))) {rest : Forest} (hrest : Rebuilds σ rest) :
    Rebuilds σ (.entity keyword head body rest) := by
  intro r lines hstore hparent hbody hlines
  rw [Forest.lines, List.map_append] at hlines
  obtain ⟨front, after, rfl, hfront, hafter⟩ := List.map_eq_append_iff.1 hlines
  exact hrest.append hparent hbody rfl
    (readLines_entity keyword head body hstore hparent hbody hfront) hafter

/-- The lines of a package declare it with all that is in it, and close its block. -/
theorem readLines_package {head : Head} (hname : '\x7d' ∉ head.name.name.toList)
    {inside : Forest} (hinside : Rebuilds σ inside) {r : Reader σ} (hstore : RefusesNothing r.store)
    (hparent : (workspace r.store).CanOwn r.parent) (hbody : r.body = none)
    {header closing : Text.Line} {within : List Text.Line}
    (hheader : header.text = trim (headerLine "package" head true))
    (hwithin : within.map Text.Line.text = inside.lines.map trim)
    (hclosing : closing.text = trim Forest.closingLine) :
    ∃ store, RefusesNothing store ∧ workspace store
        = (workspace r.store).extend r.parent [(workspace r.store).nextElement]
          (((workspace r.store).newElement r.parent head.name.name .package).listing
            (inside.roots ((workspace r.store).elements.length + 1)) ::
            inside.elements (workspace r.store).nextElement
              ((workspace r.store).elements.length + 1)) ∧
      r.readLines (header :: (within ++ [closing])) = { r with
        store
        aliases := inside.entered (r.aliases.insert (head.aliasName.getD head.name.name)
          (workspace r.store).nextElement) ((workspace r.store).elements.length + 1) } := by
  obtain ⟨store, haccepts, hdeclared, hopened⟩ := step_package hname hstore hparent hbody hheader
  have hlength : (workspace store).elements.length = (workspace r.store).elements.length + 1 :=
    hdeclared ▸ Workspace.length_extend_new _ _ _
  let opened : Reader σ := { r with
    store
    aliases := r.aliases.insert (head.aliasName.getD head.name.name)
      (workspace r.store).nextElement
    containers := ⟨(workspace r.store).nextElement, header.span⟩ :: r.containers }
  have howner : (workspace store).CanOwn (workspace r.store).nextElement :=
    hdeclared ▸ ⟨_, Workspace.element?_extend_new _ _ _, rfl⟩
  obtain ⟨filled, hfilled, hwithin, hrun⟩ :=
    hinside (r := opened) haccepts howner hbody hwithin
  simp only [opened, hlength] at hwithin hrun
  refine ⟨filled, hfilled, ?_, ?_⟩
  -- The package lists its roots now.
  · rw [hwithin, hdeclared]
    exact Workspace.extend_extend_new _ _ _ _ _
  -- The brace takes the reader back to the parent of the package.
  · rw [readLines_cons, hopened, readLines_append, hrun, readLines_cons, readLines_nil]
    refine step_closing_container ?_ (List.cons_ne_nil _ _) hclosing
    exact hbody

theorem rebuilds_package {head : Head} (hname : '\x7d' ∉ head.name.name.toList)
    {inside rest : Forest} (hinside : Rebuilds σ inside) (hrest : Rebuilds σ rest) :
    Rebuilds σ (.package head hname inside rest) := by
  intro r lines hstore hparent hbody hlines
  rw [Forest.lines, List.map_append, List.map_cons, List.map_cons] at hlines
  obtain ⟨front, back, rfl, hfront, hback⟩ := List.map_eq_append_iff.1 hlines
  obtain ⟨header, within, rfl, hheader, hwithin⟩ := List.map_eq_cons_iff.1 hfront
  obtain ⟨closing, after, rfl, hclosing, hafter⟩ := List.map_eq_cons_iff.1 hback
  have hnext : (workspace r.store).elements.length + 1 + inside.size
      = (workspace r.store).elements.length + (((workspace r.store).newElement r.parent
          head.name.name .package).listing (inside.roots ((workspace r.store).elements.length + 1))
        :: inside.elements (workspace r.store).nextElement
          ((workspace r.store).elements.length + 1)).length := by
    rw [List.length_cons, Forest.length_elements]
    omega
  have hblock : header :: within ++ closing :: after
      = header :: (within ++ [closing]) ++ after := by simp
  rw [hblock]
  exact hrest.append hparent hbody hnext
    (readLines_package hname hinside hstore hparent hbody hheader hwithin hclosing) hafter

theorem rebuilds (forest : Forest) : Rebuilds σ forest := by
  induction forest with
  | empty => exact rebuilds_empty
  | package head hname inside rest hinside hrest => exact rebuilds_package hname hinside hrest
  | entity keyword head body rest hrest => exact rebuilds_entity keyword head body hrest

end Reader

/-- **Reading rebuilds every forest.** A text that spells a forest, as its own text does, adds
exactly the elements of the forest to a store that refuses nothing, one for each package and each
entity in the order of the text, below the elements of their packages and with their members. It
enters their names, and nothing is reported. -/
theorem parse_rebuilds_forest (forest : Forest) {store : σ} {root : ElementId}
    (hstore : RefusesNothing store) (hroot : (workspace store).CanOwn root) :
    forest.SpelledBy forest.text ∧ ∀ source, forest.SpelledBy source →
      let next := (workspace store).elements.length
      let read := parse store root source
      workspace read.2
          = (workspace store).extend root (forest.roots next) (forest.elements root next) ∧
        (workspace read.2).elements.length = next + forest.size ∧
        read.1.aliases = forest.entered {} next ∧
        read.1.blueprints = [] ∧
        read.1.diagnostics = [] := by
  refine ⟨forest.spelledBy_text, fun source hsource => ?_⟩
  -- What the reader passes over can be left out of the text.
  have hlines : ((Text.locatedLines source.toList).filter fun line =>
      !Line.isIgnored line.text).map Text.Line.text = forest.lines.map trim := by
    rw [← hsource, List.filter_map]
    rfl
  obtain ⟨read, -, hread, hrun⟩ :=
    Reader.rebuilds forest (r := { store, root }) hstore hroot rfl hlines
  rw [Reader.readLines_filter] at hrun
  have hfinish : Reader.readText store root source.toList
      = { store := read, root,
          aliases := forest.entered {} (workspace store).elements.length } := by
    rw [Reader.readText, hrun]
    rfl
  simp only [parse, hfinish, and_true]
  refine ⟨hread, ?_⟩
  rw [hread, Workspace.length_extend, Forest.length_elements]

/-- A forest with a package in a package, names in quotes, aliases and members. -/
def Forest.bookshop : Forest :=
  .package { name := .quoted "Book shop" (by decide), aliasName := some "Shop" } (by decide)
    (.entity .abstractClass { name := .plain "Item" (by decide) }
      (some [
        { line := "# price : int = 0".toList
          member := .ofAttribute ⟨"price", some "int", .prot, some "0"⟩ },
        { line := "sell(count: int): bool".toList
          member := .ofOperation
            ⟨"sell", .pub, [.input "count" (some "int"), .returning "bool"]⟩ }])
      (.package { name := .plain "People" (by decide) } (by decide)
        (.entity .actor { name := .quoted "A reader" (by decide), aliasName := some "Reader" }
          none .empty)
        .empty))
    (.entity .enumeration { name := .plain "Genre" (by decide) }
      (some [
        { line := "NOVEL".toList, member := .ofLiteral "NOVEL" },
        { line := "POETRY".toList, member := .ofLiteral "POETRY" }])
      .empty)

/-- Lines that spell it, indented and with lines without content between them. -/
def bookshopLines : List String := [
  "@startuml",
  "package \"Book shop\" as Shop \x7b",
  "  abstract class Item \x7b",
  "    # price : int = 0",
  "    sell(count: int): bool",
  "  \x7d",
  "",
  "  ' the customers",
  "  package People \x7b",
  "    actor \"A reader\" as Reader",
  "  \x7d",
  "\x7d",
  "enum Genre \x7b",
  "  NOVEL",
  "  POETRY",
  "\x7d",
  "@enduml"]

/-- The lines of the bookshop as one text. -/
def bookshopText : String :=
  String.ofList (['\n'].intercalate (bookshopLines.map String.toList))

theorem spelledBy_bookshopText : Forest.bookshop.SpelledBy bookshopText := by
  have hnewline : (bookshopLines.map String.toList).all fun line => !line.contains '\n' := by
    decide +kernel
  rw [Forest.SpelledBy, bookshopText, String.toList_ofList,
    Text.map_text_locatedLines (by simp [bookshopLines]) (by simpa using hnewline)]
  decide +kernel

theorem parse_rebuilds_bookshop :
    RefusesNothing Workspace.new ∧ (workspace Workspace.new).CanOwn Workspace.root ∧
      Forest.bookshop.SpelledBy bookshopText ∧
      (workspace (parse Workspace.new Workspace.root bookshopText).2).elements
        = [{ id := ⟨0⟩, name := "Model", owned := [⟨1⟩, ⟨5⟩], body := .project },
          { id := ⟨1⟩, name := "Book shop", parent := some ⟨0⟩, owned := [⟨2⟩, ⟨3⟩],
            body := .package },
          { id := ⟨2⟩, name := "Item", parent := some ⟨1⟩, body := .umlClass
              { isAbstract := true
                attributes := [⟨"price", some "int", .prot, some "0"⟩]
                operations :=
                  [⟨"sell", .pub, [.input "count" (some "int"), .returning "bool"]⟩] } },
          { id := ⟨3⟩, name := "People", parent := some ⟨1⟩, owned := [⟨4⟩], body := .package },
          { id := ⟨4⟩, name := "A reader", parent := some ⟨3⟩, body := .actor },
          { id := ⟨5⟩, name := "Genre", parent := some ⟨0⟩,
            body := .enumeration ["NOVEL", "POETRY"] }] ∧
      (parse Workspace.new Workspace.root bookshopText).1.diagnostics = [] := by
  have hstore : RefusesNothing Workspace.new := refusesNothing_workspace _
  have hroot : (workspace Workspace.new).CanOwn Workspace.root := ⟨_, rfl, rfl⟩
  obtain ⟨hread, -, -, -, hdiagnostics⟩ :=
    (parse_rebuilds_forest Forest.bookshop hstore hroot).2 bookshopText spelledBy_bookshopText
  refine ⟨hstore, hroot, spelledBy_bookshopText, ?_, hdiagnostics⟩
  rw [hread]
  decide +kernel

end UmlText
