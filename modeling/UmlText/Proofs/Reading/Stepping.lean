import UmlText.Reading.Reader

/-!
# UmlText.Proofs.Reading.Stepping

**What one line does to a reader, for every answer of the store.** A header whose element is created
enters its names in the table; a header whose element is refused is reported. Both open their block
if there is one. There is one lemma for the outcomes of each kind of line, such as
`Reader.openPackage_cases`, and what a run keeps or counts is read off these.
-/

namespace UmlText

universe u

open Text (Span)

/-! ### Shapes -/

namespace LineShape

theorem of_eq_ignored_iff {bodyOpen : Bool} {line : List Char} :
    LineShape.of bodyOpen line = .ignored ↔ Line.isIgnored line := by
  cases h : Line.isIgnored line with
  | true => simp [LineShape.of, h]
  | false => grind [LineShape.of]

/-- Outside a body no line is a member. -/
theorem of_false_ne_member (line : List Char) : LineShape.of false line ≠ .member := by
  grind [LineShape.of]

/-- In an open body, what reads as a member is a member, unless it is passed over. -/
theorem of_true_of_isMember {line : List Char} (hmember : Line.isMember line)
    (hignored : Line.isIgnored line = false) : LineShape.of true line = .member := by
  simp [LineShape.of, hignored, hmember]

theorem of_eq_package {bodyOpen : Bool} {line : List Char} {header : Line.PackageHeader}
    (h : LineShape.of bodyOpen line = .package header) :
    Line.packageHeader? line = some header := by
  grind [LineShape.of]

theorem of_eq_entity {bodyOpen : Bool} {line : List Char} {header : Line.EntityHeader}
    (h : LineShape.of bodyOpen line = .entity header) :
    Line.entityHeader? line = some header := by
  grind [LineShape.of]

/-- Only outside a body, and where no header is read, a line is a relationship. -/
theorem of_eq_relationship {bodyOpen : Bool} {line : List Char} {parts : Line.RelationshipLine}
    (h : LineShape.of bodyOpen line = .relationship parts) :
    LineShape.of false line = .relationship parts ∧ Line.relationshipLine? line = some parts := by
  have hclosed : bodyOpen = false := by
    cases bodyOpen with
    | false => rfl
    | true => grind [LineShape.of]
  subst hclosed
  exact ⟨h, by grind [LineShape.of]⟩

end LineShape

/-- The primary label of a diagnostic is on the span of its issue. -/
theorem Issue.primarySpan?_diagnostic (issue : Issue) (span : Span) :
    (issue.diagnostic span).primarySpan? = some span := by
  cases issue <;> rfl

namespace Reader

variable {σ : Type u} [ModelStore σ] {r : Reader σ}

@[simp] theorem readLines_nil (r : Reader σ) : r.readLines [] = r := rfl

@[simp] theorem readLines_cons (r : Reader σ) (line : Text.Line) (rest : List Text.Line) :
    r.readLines (line :: rest) = (r.step line).readLines rest := rfl

theorem readLines_append (r : Reader σ) (lines rest : List Text.Line) :
    r.readLines (lines ++ rest) = (r.readLines lines).readLines rest :=
  List.foldl_append

/-- What each of the lines leaves standing, all of them do. -/
theorem readLines_induct {motive : Reader σ → Prop} {lines : List Text.Line}
    (step : ∀ r, ∀ line ∈ lines, motive r → motive (r.step line)) (h : motive r) :
    motive (r.readLines lines) :=
  List.foldlRecOn lines Reader.step h fun r hr line hline => step r line hline hr

theorem step_of_isIgnored {line : Text.Line} (h : Line.isIgnored line.text) :
    r.step line = r := by
  rw [step, LineShape.of_eq_ignored_iff.2 h]

/-- Lines that are passed over can be left out. -/
theorem readLines_filter (r : Reader σ) (lines : List Text.Line) :
    r.readLines (lines.filter fun line => !Line.isIgnored line.text) = r.readLines lines := by
  induction lines generalizing r with
  | nil => rfl
  | cons line rest ih =>
      cases h : Line.isIgnored line.text with
      | true =>
          rw [List.filter_cons_of_neg (by simp [h]), ih, readLines_cons, step_of_isIgnored h]
      | false =>
          rw [List.filter_cons_of_pos (by simp [h]), readLines_cons, readLines_cons, ih]

/-! ### Headers -/

omit [ModelStore σ] in
/-- What is declared next goes below the root, or below the container of an open block. -/
theorem parent_cases (r : Reader σ) :
    r.parent = r.root ∨ ∃ c ∈ r.containers, r.parent = c.id := by
  rw [parent]
  cases r.containers with
  | nil => exact .inl rfl
  | cons c outer => exact .inr ⟨c, List.mem_cons_self, rfl⟩

theorem declare_granted {kind : ElementKind} {name : String} {isAbstract : Bool} {id : ElementId}
    {store : σ} (h : ModelStore.createElement r.store { kind, parent := r.parent, name, isAbstract }
      = (.ok id, store)) (span : Span) :
    r.declare span kind name isAbstract = (some id, { r with store }) := by
  simp only [declare, h]

theorem declare_refused {kind : ElementKind} {name : String} {isAbstract : Bool}
    {error : StoreError} {store : σ}
    (h : ModelStore.createElement r.store { kind, parent := r.parent, name, isAbstract }
      = (.error error, store)) (span : Span) :
    r.declare span kind name isAbstract
      = (none, { r with store }.report span (.elementRefused kind name error)) := by
  simp only [declare, h]

/-- A package that is created is entered in the table, and its block is its own. -/
theorem openPackage_granted {header : Line.PackageHeader} {id : ElementId} {store : σ}
    (h : ModelStore.createElement r.store
      { kind := .package, parent := r.parent, name := header.name, isAbstract := false }
        = (.ok id, store)) (span : Span) :
    r.openPackage span header = { r with
      store
      aliases := r.aliases.insert (header.aliasName.getD header.name) id
      containers := if header.opens then ⟨id, span⟩ :: r.containers else r.containers } := by
  simp only [openPackage, declare_granted h, register, Option.getD_some]
  split <;> rfl

/-- A refused package is reported, and its block belongs to the parent. -/
theorem openPackage_refused {header : Line.PackageHeader} {error : StoreError} {store : σ}
    (h : ModelStore.createElement r.store
      { kind := .package, parent := r.parent, name := header.name, isAbstract := false }
        = (.error error, store)) (span : Span) :
    r.openPackage span header = { r with
      store
      diagnostics := r.diagnostics
        ++ [(Issue.elementRefused .package header.name error).diagnostic span]
      containers := if header.opens then ⟨r.parent, span⟩ :: r.containers else r.containers } := by
  simp only [openPackage, declare_refused h, report, Option.getD_none]
  split <;> rfl

/-- **The header of a package** is refused or granted. -/
theorem openPackage_cases (r : Reader σ) (span : Span) (header : Line.PackageHeader) :
    (∃ error store,
        ModelStore.createElement r.store
          { kind := .package, parent := r.parent, name := header.name, isAbstract := false }
            = (.error error, store) ∧
        r.openPackage span header = { r with
          store
          diagnostics := r.diagnostics
            ++ [(Issue.elementRefused .package header.name error).diagnostic span]
          containers :=
            if header.opens then ⟨r.parent, span⟩ :: r.containers else r.containers }) ∨
      ∃ id store,
        ModelStore.createElement r.store
          { kind := .package, parent := r.parent, name := header.name, isAbstract := false }
            = (.ok id, store) ∧
        r.openPackage span header = { r with
          store
          aliases := r.aliases.insert (header.aliasName.getD header.name) id
          containers := if header.opens then ⟨id, span⟩ :: r.containers else r.containers } := by
  rcases h : ModelStore.createElement r.store
      { kind := .package, parent := r.parent, name := header.name, isAbstract := false } with
    ⟨error | id, store⟩
  · exact .inl ⟨error, store, rfl, openPackage_refused h span⟩
  · exact .inr ⟨id, store, rfl, openPackage_granted h span⟩

/-- The table of names after an entity was declared: its alias first, if it has one. -/
def enter (aliases : OrderedMap String ElementId) (aliasName : Option String) (name : String)
    (id : ElementId) : OrderedMap String ElementId :=
  (aliasName.elim aliases fun aliasName => aliases.insert aliasName id).insert name id

theorem openEntity_granted {header : Line.EntityHeader} {id : ElementId} {store : σ}
    (h : ModelStore.createElement r.store
      { kind := header.kind, parent := r.parent, name := header.name,
        isAbstract := header.isAbstract } = (.ok id, store)) (span : Span) :
    r.openEntity span header = { r with
      store
      aliases := enter r.aliases header.aliasName header.name id
      body :=
        if header.block = .opened then some ⟨.element id header.kind, span⟩ else r.body } := by
  simp only [openEntity, declare_granted h, register, enter]
  cases header.aliasName <;> simp only [Option.elim] <;> split <;> rfl

/-- The members of a refused entity will be dropped. -/
theorem openEntity_refused {header : Line.EntityHeader} {error : StoreError} {store : σ}
    (h : ModelStore.createElement r.store
      { kind := header.kind, parent := r.parent, name := header.name,
        isAbstract := header.isAbstract } = (.error error, store)) (span : Span) :
    r.openEntity span header = { r with
      store
      diagnostics := r.diagnostics
        ++ [(Issue.elementRefused header.kind header.name error).diagnostic span]
      body := if header.block = .opened then some ⟨.refused, span⟩ else r.body } := by
  simp only [openEntity, declare_refused h, report]
  split <;> rfl

/-- **The header of an entity** is refused or granted. -/
theorem openEntity_cases (r : Reader σ) (span : Span) (header : Line.EntityHeader) :
    (∃ error store,
        ModelStore.createElement r.store
          { kind := header.kind, parent := r.parent, name := header.name,
            isAbstract := header.isAbstract } = (.error error, store) ∧
        r.openEntity span header = { r with
          store
          diagnostics := r.diagnostics
            ++ [(Issue.elementRefused header.kind header.name error).diagnostic span]
          body := if header.block = .opened then some ⟨.refused, span⟩ else r.body }) ∨
      ∃ id store,
        ModelStore.createElement r.store
          { kind := header.kind, parent := r.parent, name := header.name,
            isAbstract := header.isAbstract } = (.ok id, store) ∧
        r.openEntity span header = { r with
          store
          aliases := enter r.aliases header.aliasName header.name id
          body := if header.block = .opened then some ⟨.element id header.kind, span⟩
            else r.body } := by
  rcases h : ModelStore.createElement r.store
      { kind := header.kind, parent := r.parent, name := header.name,
        isAbstract := header.isAbstract } with ⟨error | id, store⟩
  · exact .inl ⟨error, store, rfl, openEntity_refused h span⟩
  · exact .inr ⟨id, store, rfl, openEntity_granted h span⟩

/-! ### Members -/

theorem addMember_unrecognized {id : ElementId} {kind : ElementKind} {line : List Char}
    (howner : r.body.map OpenBody.owner = some (.element id kind))
    (hline : Line.member? kind line = none) (span : Span) :
    r.addMember span line = r.report span (.unrecognizedMember kind) := by
  simp only [addMember, howner, hline]

theorem addMember_granted {id : ElementId} {kind : ElementKind} {line : List Char}
    {member : Member} {store : σ} (howner : r.body.map OpenBody.owner = some (.element id kind))
    (hline : Line.member? kind line = some member)
    (h : ModelStore.addMember r.store id member = (.ok (), store)) (span : Span) :
    r.addMember span line = { r with store } := by
  simp only [addMember, howner, hline, h]

theorem addMember_refused {id : ElementId} {kind : ElementKind} {line : List Char}
    {member : Member} {error : StoreError} {store : σ}
    (howner : r.body.map OpenBody.owner = some (.element id kind))
    (hline : Line.member? kind line = some member)
    (h : ModelStore.addMember r.store id member = (.error error, store)) (span : Span) :
    r.addMember span line = { r with store }.report span (.memberRefused error) := by
  simp only [addMember, howner, hline, h]

theorem addMember_dropped (howner : ∀ id kind,
      r.body.map OpenBody.owner ≠ some (.element id kind)) (span : Span) (line : List Char) :
    r.addMember span line = r := by
  simp only [addMember]
  split
  · next id kind h => exact absurd h (howner id kind)
  · rfl
  · rfl

/-- **A member line** is dropped, or is no member of the open body, or the store refuses it, or the
store takes it. -/
theorem addMember_cases (r : Reader σ) (span : Span) (line : List Char) :
    ((∀ id kind, r.body.map OpenBody.owner ≠ some (.element id kind)) ∧
        r.addMember span line = r) ∨
      (∃ id kind, r.body.map OpenBody.owner = some (.element id kind) ∧
        Line.member? kind line = none ∧
        r.addMember span line = r.report span (.unrecognizedMember kind)) ∨
      (∃ id kind member error store, r.body.map OpenBody.owner = some (.element id kind) ∧
        Line.member? kind line = some member ∧
        ModelStore.addMember r.store id member = (.error error, store) ∧
        r.addMember span line = { r with store }.report span (.memberRefused error)) ∨
      ∃ id kind member store, r.body.map OpenBody.owner = some (.element id kind) ∧
        Line.member? kind line = some member ∧
        ModelStore.addMember r.store id member = (.ok (), store) ∧
        r.addMember span line = { r with store } := by
  by_cases hopen : ∃ id kind, r.body.map OpenBody.owner = some (.element id kind)
  · obtain ⟨id, kind, howner⟩ := hopen
    cases hline : Line.member? kind line with
    | none => exact .inr (.inl ⟨id, kind, howner, hline, addMember_unrecognized howner hline span⟩)
    | some member =>
        rcases h : ModelStore.addMember r.store id member with ⟨error | granted, store⟩
        · exact .inr (.inr (.inl ⟨id, kind, member, error, store, howner, hline, h,
            addMember_refused howner hline h span⟩))
        · exact .inr (.inr (.inr ⟨id, kind, member, store, howner, hline, h,
            addMember_granted howner hline h span⟩))
  · have howner : ∀ id kind, r.body.map OpenBody.owner ≠ some (.element id kind) :=
      fun id kind heq => hopen ⟨id, kind, heq⟩
    exact .inl ⟨howner, addMember_dropped howner span line⟩

/-! ### Blocks -/

omit [ModelStore σ] in
/-- A brace closes the first of the open blocks, or is reported. -/
theorem closeBlock_cases (r : Reader σ) (span : Span) :
    (r.openBlocks = [] ∧ r.closeBlock span = r.report span .nothingToClose) ∨
      ∃ opened body containers, r.closeBlock span = { r with body, containers } ∧
        r.openBlocks = opened :: { r with body, containers }.openBlocks := by
  simp only [closeBlock]
  split
  · next body hbody =>
      exact .inr ⟨body.openedAt, none, r.containers, rfl, by simp [openBlocks, hbody]⟩
  · next container outer hbody hcontainers =>
      exact .inr ⟨container.openedAt, r.body, outer, rfl, by
        simp [openBlocks, hbody, hcontainers]⟩
  · next hbody hcontainers => exact .inl ⟨by simp [openBlocks, hbody, hcontainers], rfl⟩

/-- The reports at the end of a text, one for each block that is open there. -/
def endReports (r : Reader σ) (stop : Span) : List Diagnostic :=
  r.openBlocks.map fun opened => (Issue.unclosedBlock opened).diagnostic stop

/-- The diagnostics of a text are those of its lines and then those of its end. -/
theorem diagnostics_readText (store : σ) (root : ElementId) (source : List Char) :
    let last := ({ store, root : Reader σ }).readLines (Text.locatedLines source)
    (readText store root source).diagnostics
      = last.diagnostics ++ last.endReports (Text.endSpan source) := rfl

/-! ### Relationships -/

/-- **A relationship line** is reported for an operand that stands for nothing, or for its arrow,
or it is recorded. -/
theorem relate_cases (r : Reader σ) (span : Span) (parts : Line.RelationshipLine) :
    (∃ name, (name = parts.left ∨ name = parts.right) ∧ r.resolve? name = none ∧
        r.relate span parts = r.report span (.unresolvedEndpoint name)) ∨
      (∃ left right, r.resolve? parts.left = some left ∧ r.resolve? parts.right = some right ∧
        blueprint? parts left right = none ∧
        r.relate span parts = r.report span (.unsupportedArrow parts.arrow)) ∨
      ∃ left right blueprint, r.resolve? parts.left = some left ∧
        r.resolve? parts.right = some right ∧ blueprint? parts left right = some blueprint ∧
        r.relate span parts = { r with blueprints := r.blueprints ++ [blueprint] } := by
  cases hleft : r.resolve? parts.left with
  | none => exact .inl ⟨parts.left, .inl rfl, hleft, by simp only [relate, hleft]⟩
  | some left =>
      cases hright : r.resolve? parts.right with
      | none => exact .inl ⟨parts.right, .inr rfl, hright, by simp only [relate, hleft, hright]⟩
      | some right =>
          cases hb : blueprint? parts left right with
          | none =>
              exact .inr (.inl ⟨left, right, rfl, rfl, hb, by
                simp only [relate, hleft, hright, hb]⟩)
          | some blueprint =>
              exact .inr (.inr ⟨left, right, blueprint, rfl, rfl, hb, by
                simp only [relate, hleft, hright, hb]⟩)

end Reader

end UmlText
