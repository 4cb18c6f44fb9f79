import Mathlib.Logic.ExistsUnique
import UmlText.Proofs.Reading.Stepping
import UmlText.Proofs.Store.Backed
import UmlText.Proofs.Store.Contents

/-!
# UmlText.Proofs.Reading.Outcomes

**Every line is accounted for.** A line that is not passed over has exactly one of six outcomes,
whatever the store refuses: it creates an element, adds a member, records a relationship, closes a
block, is dropped in the body of a refused entity, or is reported. What each of them leaves behind
can be counted in the store and in the reader, so the outcomes of a text can be told from its
result.
-/

namespace UmlText

universe u

open BackedStore (workspace)

/-! ### Counting members -/

namespace Workspace

/-- The number of attributes, operations and literals of all elements. -/
def memberTotal (w : Workspace) : Nat :=
  w.contents.foldr (fun content total => content.2.memberCount + total) 0

theorem foldr_memberCount_append (before after : List (String × Body)) :
    (before ++ after).foldr (fun content total => content.2.memberCount + total) 0
      = before.foldr (fun content total => content.2.memberCount + total) 0
        + after.foldr (fun content total => content.2.memberCount + total) 0 := by
  induction before with
  | nil => simp
  | cons content rest ih => simp [ih, Nat.add_assoc]

/-- A body with one more member in its place makes one member more in all. -/
theorem foldr_memberCount_modify {contents : List (String × Body)} {i : Nat}
    {content : String × Body} (h : contents[i]? = some content) {f : String × Body → String × Body}
    (hf : (f content).2.memberCount = content.2.memberCount + 1) :
    (contents.modify i f).foldr (fun content total => content.2.memberCount + total) 0
      = contents.foldr (fun content total => content.2.memberCount + total) 0 + 1 := by
  induction contents generalizing i with
  | nil => simp at h
  | cons first rest ih =>
      cases i with
      | zero =>
          obtain rfl := Option.some.inj h
          simp only [List.modify_zero_cons, List.foldr_cons, hf]
          omega
      | succ i =>
          simp only [List.modify_succ_cons, List.foldr_cons, ih h]
          omega

end Workspace

theorem Body.memberCount_empty (kind : ElementKind) (isAbstract : Bool) :
    (Body.empty kind isAbstract).memberCount = 0 := by
  cases kind <;> rfl

theorem Body.memberCount_withMember? {body body' : Body} {member : Member}
    (h : body.withMember? member = some body') : body'.memberCount = body.memberCount + 1 := by
  cases body <;> cases member <;> simp only [Body.withMember?, Option.some.injEq, reduceCtorEq] at h
    <;> subst h <;> simp only [memberCount, List.length_append, List.length_singleton] <;> omega

namespace Workspace

theorem memberTotal_pushElement (w : Workspace) (parent : ElementId) (name : String)
    (kind : ElementKind) (isAbstract : Bool) :
    (w.pushElement parent name (.empty kind isAbstract)).2.memberTotal = w.memberTotal := by
  rw [memberTotal, contents_pushElement, foldr_memberCount_append, memberTotal]
  simp [Body.memberCount_empty]

theorem memberTotal_updateElement {w : Workspace} {id : ElementId} {element : Element}
    {member : Member} {body : Body} (helement : w.element? id = some element)
    (hbody : element.body.withMember? member = some body) :
    (w.updateElement id fun e => { e with body }).memberTotal = w.memberTotal + 1 := by
  rw [memberTotal, contents_updateElement w id (g := fun content => (content.1, body))
    fun _ => rfl, memberTotal]
  have hcontent : w.contents[id.index]? = some (element.name, element.body) := by
    rw [contents, List.getElem?_map]
    exact congrArg (Option.map _) helement
  exact foldr_memberCount_modify hcontent (Body.memberCount_withMember? hbody)

theorem length_pushElement (w : Workspace) (parent : ElementId) (name : String) (body : Body) :
    (w.pushElement parent name body).2.elements.length = w.elements.length + 1 := by
  simp [pushElement]

theorem length_updateElement (w : Workspace) (id : ElementId) (f : Element → Element) :
    (w.updateElement id f).elements.length = w.elements.length :=
  List.length_modify ..

end Workspace

/-! ### Outcomes -/

/-- What becomes of a line that is not passed over. -/
inductive Outcome where
  | created
  | added
  | recorded
  | closed
  | dropped
  | reported
deriving DecidableEq, Repr

variable {σ : Type u} [ModelStore σ] [ViewStore σ] [BackedStore σ]

/-- What an outcome of a line says of the readers before and after it. -/
def Outcome.Describes (line : Text.Line) (before after : Reader σ) : Outcome → Prop
  /- One element is pushed, without members; its names and its block may come with it. -/
  | created =>
    (∃ kind name isAbstract, workspace after.store
        = ((workspace before.store).pushElement before.parent name (.empty kind isAbstract)).2) ∧
      after.blueprints = before.blueprints ∧ after.diagnostics = before.diagnostics
  /- One element has one more member, and nothing else has changed. -/
  | added =>
    ∃ store, after = { before with store } ∧
      ∃ id member element body, (workspace before.store).element? id = some element ∧
        element.body.withMember? member = some body ∧
        workspace store = (workspace before.store).updateElement id fun e => { e with body }
  | recorded =>
    ∃ blueprint, after = { before with blueprints := before.blueprints ++ [blueprint] }
  /- The innermost open block is gone, and nothing else has changed. -/
  | closed =>
    ∃ opened body containers, after = { before with body, containers } ∧
      before.openBlocks = opened :: after.openBlocks
  | dropped => before.body.map OpenBody.owner = some .refused ∧ after = before
  /- The store holds what it held. A refused header may still open its block. -/
  | reported =>
    (∃ d, d.primarySpan? = some line.span ∧ after.diagnostics = before.diagnostics ++ [d]) ∧
      workspace after.store = workspace before.store ∧ after.blueprints = before.blueprints ∧
      after.aliases = before.aliases

namespace Reader

/-! ### One line -/

theorem describes_report (r : Reader σ) (line : Text.Line) (issue : Issue) :
    Outcome.reported.Describes line r (r.report line.span issue) :=
  ⟨⟨_, Issue.primarySpan?_diagnostic issue line.span, rfl⟩, rfl, rfl, rfl⟩

theorem describes_openPackage (r : Reader σ) (line : Text.Line) (header : Line.PackageHeader) :
    ∃ o : Outcome, o.Describes line r (r.openPackage line.span header) := by
  rcases BackedStore.createElement_cases r.store
      { kind := .package, parent := r.parent, name := header.name, isAbstract := false } with
    ⟨error, store, hc, hw⟩ | ⟨owner, store, -, -, hc, hw⟩
  · rw [openPackage_refused hc]
    exact ⟨.reported, ⟨_, Issue.primarySpan?_diagnostic _ line.span, rfl⟩, hw, rfl, rfl⟩
  · rw [openPackage_granted hc]
    exact ⟨.created, ⟨_, _, _, hw⟩, rfl, rfl⟩

theorem describes_openEntity (r : Reader σ) (line : Text.Line) (header : Line.EntityHeader) :
    ∃ o : Outcome, o.Describes line r (r.openEntity line.span header) := by
  rcases BackedStore.createElement_cases r.store
      { kind := header.kind, parent := r.parent, name := header.name,
        isAbstract := header.isAbstract } with
    ⟨error, store, hc, hw⟩ | ⟨owner, store, -, -, hc, hw⟩
  · rw [openEntity_refused hc]
    exact ⟨.reported, ⟨_, Issue.primarySpan?_diagnostic _ line.span, rfl⟩, hw, rfl, rfl⟩
  · rw [openEntity_granted hc]
    exact ⟨.created, ⟨_, _, _, hw⟩, rfl, rfl⟩

theorem describes_closeBlock (r : Reader σ) (line : Text.Line) :
    ∃ o : Outcome, o.Describes line r (r.closeBlock line.span) := by
  rcases r.closeBlock_cases line.span with ⟨-, h⟩ | ⟨opened, body, containers, h, hopened⟩
  · exact ⟨.reported, h ▸ r.describes_report line _⟩
  · exact ⟨.closed, opened, body, containers, h, h ▸ hopened⟩

/-- A line in an open body is added, reported or dropped. -/
theorem describes_addMember (r : Reader σ) (line : Text.Line) (hbody : r.body.isSome) :
    ∃ o : Outcome, o.Describes line r (r.addMember line.span line.text) := by
  obtain ⟨⟨owner, openedAt⟩, hopen⟩ := Option.isSome_iff_exists.1 hbody
  have howner : r.body.map OpenBody.owner = some owner := by rw [hopen]; rfl
  cases owner with
  | refused =>
      rw [addMember_dropped (by simp [howner])]
      exact ⟨.dropped, howner, rfl⟩
  | element id kind =>
      cases hline : Line.member? kind line.text with
      | none =>
          rw [addMember_unrecognized howner hline]
          exact ⟨.reported, r.describes_report line _⟩
      | some member =>
          rcases BackedStore.addMember_cases r.store id member with
            ⟨error, store, hm, hw⟩ | ⟨element, body, store, helement, hmember, hm, hw⟩
          · rw [addMember_refused howner hline hm]
            exact ⟨.reported, ⟨_, Issue.primarySpan?_diagnostic _ line.span, rfl⟩, hw, rfl, rfl⟩
          · rw [addMember_granted howner hline hm]
            exact ⟨.added, store, rfl, id, member, element, body, helement, hmember, hw⟩

theorem describes_relate (r : Reader σ) (line : Text.Line) (parts : Line.RelationshipLine) :
    ∃ o : Outcome, o.Describes line r (r.relate line.span parts) := by
  rcases r.relate_cases line.span parts with
    ⟨name, -, -, h⟩ | ⟨left, right, -, -, -, h⟩ | ⟨left, right, blueprint, -, -, -, h⟩ <;> rw [h]
  · exact ⟨.reported, r.describes_report line _⟩
  · exact ⟨.reported, r.describes_report line _⟩
  · exact ⟨.recorded, blueprint, rfl⟩

/-- A line that is not passed over has an outcome. -/
theorem exists_outcome (r : Reader σ) {line : Text.Line}
    (h : Line.isIgnored line.text = false) : ∃ o : Outcome, o.Describes line r (r.step line) := by
  cases hshape : LineShape.of r.body.isSome line.text with
  | ignored => exact absurd (LineShape.of_eq_ignored_iff.1 hshape) (by simp [h])
  | member =>
      have hbody : r.body.isSome := by
        cases hopen : r.body.isSome with
        | true => rfl
        | false => exact absurd (hopen ▸ hshape) (LineShape.of_false_ne_member line.text)
      simpa only [step, hshape] using r.describes_addMember line hbody
  | package header => simpa only [step, hshape] using r.describes_openPackage line header
  | entity header => simpa only [step, hshape] using r.describes_openEntity line header
  | close => simpa only [step, hshape] using r.describes_closeBlock line
  | relationship parts => simpa only [step, hshape] using r.describes_relate line parts
  | unknown =>
      simp only [step, hshape]
      exact ⟨.reported, r.describes_report line _⟩

/-- What the outcomes of lines are counted by. Closings and drops leave nothing behind. -/
def tally (r : Reader σ) : Outcome → Nat
  | .created => (workspace r.store).elements.length
  | .added => (workspace r.store).memberTotal
  | .recorded => r.blueprints.length
  | .reported => r.diagnostics.length
  | .closed | .dropped => 0

end Reader

namespace Outcome

variable {line : Text.Line} {before after : Reader σ}

/-- Every outcome but a closing or a drop is counted once, and nowhere else. -/
theorem Describes.tally_eq {o : Outcome} (h : o.Describes line before after) {c : Outcome}
    (hclosed : c ≠ .closed) (hdropped : c ≠ .dropped) :
    after.tally c = before.tally c + [o].count c := by
  cases o with
  | created =>
      obtain ⟨⟨kind, name, isAbstract, hw⟩, hblueprints, hdiagnostics⟩ := h
      cases c <;> simp_all [Reader.tally, Workspace.length_pushElement,
        Workspace.memberTotal_pushElement]
  | added =>
      obtain ⟨store, rfl, id, member, element, body, helement, hbody, hw⟩ := h
      have hmembers := Workspace.memberTotal_updateElement helement hbody
      cases c <;> simp_all [Reader.tally, Workspace.length_updateElement]
  | recorded =>
      obtain ⟨blueprint, rfl⟩ := h
      cases c <;> simp_all [Reader.tally]
  | closed =>
      obtain ⟨opened, body, containers, rfl, -⟩ := h
      cases c <;> simp_all [Reader.tally]
  | dropped =>
      obtain ⟨-, rfl⟩ := h
      cases c <;> simp_all
  | reported =>
      obtain ⟨⟨d, -, hdiagnostics⟩, hw, hblueprints, -⟩ := h
      cases c <;> simp_all [Reader.tally]

/-- A block is closed or nothing has changed, not both. -/
theorem Describes.not_closed_of_dropped (hdropped : Outcome.dropped.Describes line before after) :
    ¬ Outcome.closed.Describes line before after := by
  rintro ⟨opened, body, containers, -, hopened⟩
  rw [hdropped.2] at hopened
  simpa using congrArg List.length hopened

/-- A line has one outcome only. -/
theorem Describes.unique {o p : Outcome} (ho : o.Describes line before after)
    (hp : p.Describes line before after) : o = p := by
  -- all outcomes but two are told apart by what they are counted by
  have hcount : ∀ c : Outcome, c ≠ .closed → c ≠ .dropped → [o].count c = [p].count c := by
    intro c hclosed hdropped
    have h := (ho.tally_eq hclosed hdropped).symm.trans (hp.tally_eq hclosed hdropped)
    omega
  have hcreated := hcount .created (by decide) (by decide)
  have hadded := hcount .added (by decide) (by decide)
  have hrecorded := hcount .recorded (by decide) (by decide)
  have hreported := hcount .reported (by decide) (by decide)
  cases o <;> cases p <;> first
    | rfl
    | exact absurd hp ho.not_closed_of_dropped
    | exact absurd ho hp.not_closed_of_dropped
    | simp at hcreated hadded hrecorded hreported

/-- Outcomes are counted one by one. -/
theorem length_eq_counts (outcomes : List Outcome) :
    outcomes.length = outcomes.count .created + outcomes.count .added + outcomes.count .recorded
      + outcomes.count .closed + outcomes.count .dropped + outcomes.count .reported := by
  induction outcomes with
  | nil => rfl
  | cons o rest ih =>
      simp only [List.length_cons, ih, List.count_cons]
      cases o <;> simp <;> omega

end Outcome

/-! ### Whole texts -/

namespace Reader

/-- The outcomes of some lines, read one after the other. -/
inductive Accounted : Reader σ → List Text.Line → List Outcome → Prop
  | nil (r : Reader σ) : Accounted r [] []
  | ignored {r : Reader σ} {line : Text.Line} {rest : List Text.Line} {outcomes : List Outcome}
      (hline : Line.isIgnored line.text) (hrest : Accounted (r.step line) rest outcomes) :
      Accounted r (line :: rest) outcomes
  | read {r : Reader σ} {line : Text.Line} {rest : List Text.Line} {o : Outcome}
      {outcomes : List Outcome} (hline : Line.isIgnored line.text = false)
      (ho : o.Describes line r (r.step line)) (hrest : Accounted (r.step line) rest outcomes) :
      Accounted r (line :: rest) (o :: outcomes)

theorem exists_accounted (r : Reader σ) (lines : List Text.Line) :
    ∃ outcomes, r.Accounted lines outcomes := by
  induction lines generalizing r with
  | nil => exact ⟨[], .nil r⟩
  | cons line rest ih =>
      obtain ⟨outcomes, hrest⟩ := ih (r.step line)
      cases hline : Line.isIgnored line.text with
      | true => exact ⟨outcomes, .ignored hline hrest⟩
      | false =>
          obtain ⟨o, ho⟩ := r.exists_outcome hline
          exact ⟨o :: outcomes, .read hline ho hrest⟩

namespace Accounted

variable {r : Reader σ} {lines : List Text.Line} {outcomes : List Outcome}

theorem unique (h : r.Accounted lines outcomes) {others : List Outcome}
    (hothers : r.Accounted lines others) : outcomes = others := by
  induction h generalizing others with
  | nil r =>
      cases hothers
      rfl
  | ignored hline _ ih =>
      cases hothers with
      | ignored _ hrest => exact ih hrest
      | read hread _ _ => rw [hline] at hread; cases hread
  | read hline ho _ ih =>
      cases hothers with
      | ignored hignored _ => rw [hline] at hignored; cases hignored
      | read _ hp hrest => rw [ho.unique hp, ih hrest]

/-- There is one outcome for each line that is not passed over. -/
theorem length_eq (h : r.Accounted lines outcomes) :
    outcomes.length = lines.countP fun line => !Line.isIgnored line.text := by
  induction h with
  | nil r => rfl
  | ignored hline _ ih => rw [List.countP_cons_of_neg (by simp [hline]), ih]
  | read hline _ _ ih => rw [List.countP_cons_of_pos (by simp [hline]), List.length_cons, ih]

/-- The outcomes that leave something behind can be counted after the last line. -/
theorem tally_readLines (h : r.Accounted lines outcomes) {c : Outcome}
    (hclosed : c ≠ .closed) (hdropped : c ≠ .dropped) :
    (r.readLines lines).tally c = r.tally c + outcomes.count c := by
  induction h with
  | nil r => rfl
  | ignored hline _ ih => rw [readLines_cons, ih, step_of_isIgnored hline]
  | read _ ho _ ih =>
      rw [readLines_cons, ih, ho.tally_eq hclosed hdropped, List.count_cons, List.count_cons,
        List.count_nil]
      omega

end Accounted

/-- **Every line is accounted for**, whatever the store refuses. A line that is passed over changes
nothing; every other one has exactly one outcome. So a text has one list of outcomes, and elements,
members, relationships and the reports of lines are as many as it says. -/
theorem readText_accounts :
    (∀ (r : Reader σ) (line : Text.Line),
        if Line.isIgnored line.text then r.step line = r
        else ∃! o : Outcome, o.Describes line r (r.step line)) ∧
      ∀ (store : σ) (root : ElementId) (source : List Char),
        let start : Reader σ := { store, root }
        let lines := Text.locatedLines source
        let last := start.readLines lines
        let read := readText store root source
        ∃! outcomes, start.Accounted lines outcomes ∧
          (workspace read.store).elements.length
              = (workspace store).elements.length + outcomes.count .created ∧
            (workspace read.store).memberTotal
              = (workspace store).memberTotal + outcomes.count .added ∧
            read.blueprints.length = outcomes.count .recorded ∧
            read.diagnostics = last.diagnostics ++ last.endReports (Text.endSpan source) ∧
            last.diagnostics.length = outcomes.count .reported ∧
            outcomes.count .created + outcomes.count .added + outcomes.count .recorded
                + outcomes.count .closed + outcomes.count .dropped + outcomes.count .reported
              = lines.countP fun line => !Line.isIgnored line.text := by
  refine ⟨fun r line => ?_, fun store root source => ?_⟩
  · split
    · next hline => exact step_of_isIgnored hline
    · next hline =>
        obtain ⟨o, ho⟩ := r.exists_outcome (Bool.eq_false_iff.2 hline)
        exact ⟨o, ho, fun p hp => hp.unique ho⟩
  · intro start lines last read
    obtain ⟨outcomes, h⟩ := start.exists_accounted lines
    have hrecorded := h.tally_readLines (c := .recorded) (by decide) (by decide)
    have hreported := h.tally_readLines (c := .reported) (by decide) (by decide)
    rw [show start.tally .recorded = 0 from rfl, Nat.zero_add] at hrecorded
    rw [show start.tally .reported = 0 from rfl, Nat.zero_add] at hreported
    refine ⟨outcomes, ⟨h, h.tally_readLines (c := .created) (by decide) (by decide),
      h.tally_readLines (c := .added) (by decide) (by decide), hrecorded,
      diagnostics_readText store root source, hreported, ?_⟩,
      fun others hothers => hothers.1.unique h⟩
    rw [← h.length_eq, Outcome.length_eq_counts]

end Reader

end UmlText
