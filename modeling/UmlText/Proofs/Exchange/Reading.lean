import Mathlib.Data.List.Induction
import UmlText.Proofs.Exchange.Elements
import UmlText.Proofs.Reading.Declared
import UmlText.Proofs.Reading.Stepping
import UmlText.Proofs.Store.Contents

/-!
# UmlText.Proofs.Exchange.Reading

**Reading what was written, line by line.** `Progress` says where a reader is: which elements it has
declared in a workspace, which of them has an open body, which associations it has recorded, and
that it has reported nothing. Each written line takes a reader from one such state to the next, so
the lines of an element do (`Progress.classLines`, `Progress.association`), and so does a whole
text.
-/

namespace UmlText

open Text (trim)

/-! ### Names -/

/-- The table of names after elements were declared in a workspace of one project: each is entered
under its name, and its number is that of its place. -/
def nameTable (names : List String) : OrderedMap String ElementId :=
  names.zipIdx.foldl (fun table x => table.insert x.1 ⟨x.2 + 1⟩) {}

theorem nameTable_concat (names : List String) (name : String) :
    nameTable (names ++ [name]) = (nameTable names).insert name ⟨names.length + 1⟩ := by
  simp [nameTable, List.zipIdx_append, List.foldl_append]

/-- A name leads to a place where it stands. -/
theorem getElem?_of_get?_nameTable {names : List String} {name : String} {id : ElementId}
    (h : (nameTable names).get? name = some id) :
    ∃ i, id = ⟨i + 1⟩ ∧ names[i]? = some name := by
  induction names using List.reverseRecOn with
  | nil => cases h
  | append_singleton names last ih =>
      rw [nameTable_concat, OrderedMap.get?_insert] at h
      split at h
      · next hlast =>
          obtain rfl := Option.some.inj h
          exact ⟨names.length, rfl, by simp [hlast]⟩
      · obtain ⟨i, rfl, hi⟩ := ih h
        refine ⟨i, rfl, ?_⟩
        rw [List.getElem?_append_left (List.getElem?_eq_some_iff.1 hi).1, hi]

theorem isSome_get?_nameTable {names : List String} {name : String} :
    ((nameTable names).get? name).isSome ↔ name ∈ names := by
  induction names using List.reverseRecOn with
  | nil => simp [nameTable]
  | append_singleton names last ih =>
      rw [nameTable_concat, OrderedMap.get?_insert]
      split
      · next hlast => simp [hlast]
      · next hlast => simp [ih, Ne.symm hlast]

/-- A name that stands at one place only leads there. -/
theorem get?_nameTable_of_nodup {names : List String} (hnodup : names.Nodup) {i : Nat}
    {name : String} (hi : names[i]? = some name) :
    (nameTable names).get? name = some ⟨i + 1⟩ := by
  obtain ⟨id, hid⟩ := Option.isSome_iff_exists.1
    (isSome_get?_nameTable.2 (List.mem_of_getElem? hi))
  obtain ⟨j, rfl, hj⟩ := getElem?_of_get?_nameTable hid
  obtain ⟨hlt, -⟩ := List.getElem?_eq_some_iff.1 hi
  rw [hid, (List.getElem?_inj hlt hnodup).1 (hi.trans hj.symm)]

namespace Reader

/-- A reader that has declared `declared` in a workspace of one project, has the body of `owner`
open, and has reported nothing. -/
structure Progress (project : String) (diagrams : List Diagram) (declared : List (String × Body))
    (blueprints : List Blueprint) (owner : Option BodyOwner) (r : Reader Workspace) : Prop where
  contents_eq : r.store.contents = (project, .project) :: declared
  diagrams_eq : r.store.diagrams = diagrams
  parent_eq : ∀ i < declared.length, r.store.parent? ⟨i + 1⟩ = some Workspace.root
  aliases_eq : r.aliases = nameTable (declared.map Prod.fst)
  root_eq : r.root = Workspace.root
  containers_eq : r.containers = []
  body_eq : r.body.map OpenBody.owner = owner
  blueprints_eq : r.blueprints = blueprints
  diagnostics_eq : r.diagnostics = []

namespace Progress

variable {project : String} {diagrams : List Diagram} {declared : List (String × Body)}
  {blueprints : List Blueprint} {owner : Option BodyOwner} {r : Reader Workspace}

/-- A reader that has not read anything. -/
theorem start {w : Workspace} (h : w.contents = [(project, .project)]) :
    Progress project w.diagrams [] [] none { store := w, root := Workspace.root } where
  contents_eq := h
  diagrams_eq := rfl
  parent_eq := by simp
  aliases_eq := rfl
  root_eq := rfl
  containers_eq := rfl
  body_eq := rfl
  blueprints_eq := rfl
  diagnostics_eq := rfl

theorem bodyOpen (h : Progress project diagrams declared blueprints owner r) :
    r.body.isSome = owner.isSome := by
  rw [← h.body_eq, Option.isSome_map]

/-- The name of a declared element leads to its number. -/
theorem resolve? (h : Progress project diagrams declared blueprints owner r) {i : Nat}
    {name : String} (hname : (nameTable (declared.map Prod.fst)).get? name = some ⟨i + 1⟩)
    {body : Body} {kind : ElementKind} (hi : declared[i]? = some (name, body))
    (hkind : body.kind? = some kind) : r.resolve? name = some (⟨i + 1⟩, kind) := by
  have hstore : ModelStore.kind? r.store ⟨i + 1⟩ = some kind := by
    have hcontent : r.store.contents[i + 1]? = some (name, body) := by
      rw [h.contents_eq, List.getElem?_cons_succ, hi]
    rw [BackedStore.kind?_eq, BackedStore.workspace_self,
      Workspace.kind?_of_contents _ ⟨i + 1⟩ hcontent, hkind]
  simp only [Reader.resolve?, h.aliases_eq, hname, hstore, Option.bind_eq_bind, Option.bind_some]
  rfl

/-! ### One line -/

/-- The header of a class declares it and opens its body. -/
theorem openEntity (h : Progress project diagrams declared blueprints none r)
    (span : Text.Span) (name : String) :
    Progress project diagrams (declared ++ [(name, .umlClass {})]) blueprints
      (some (.element ⟨declared.length + 1⟩ .umlClass))
      (r.openEntity span (Writing.classHeader name)) := by
  have hparent : r.parent = Workspace.root := by
    rw [Reader.parent, h.containers_eq, h.root_eq]
  have hfirst : r.store.contents[Workspace.root.index]? = some (project, .project) := by
    rw [h.contents_eq]
    rfl
  obtain ⟨root, hroot, hproject⟩ := Workspace.element?_of_contents _ _ hfirst
  have hlength : r.store.elements.length = declared.length + 1 := by
    rw [← Workspace.length_contents, h.contents_eq, List.length_cons]
  have hcreate : ModelStore.createElement r.store
      { kind := .umlClass, parent := r.parent, name, isAbstract := false }
        = (.ok ⟨declared.length + 1⟩,
          (r.store.pushElement Workspace.root name (.umlClass {})).2) := by
    rw [← hlength, hparent]
    refine Workspace.createElement_granted hroot ?_
    rw [(Prod.mk.inj hproject).2]
    rfl
  have hopened : r.openEntity span (Writing.classHeader name) = { r with
      store := (r.store.pushElement Workspace.root name (.umlClass {})).2
      aliases := r.aliases.insert name ⟨declared.length + 1⟩
      body := some ⟨.element ⟨declared.length + 1⟩ .umlClass, span⟩ } := by
    simp only [Reader.openEntity, Reader.declare, Writing.classHeader, hcreate]
    rfl
  rw [hopened]
  refine { h with contents_eq := ?_, parent_eq := ?_, aliases_eq := ?_, body_eq := rfl }
  · rw [Workspace.contents_pushElement, h.contents_eq, List.cons_append]
  · intro i hi
    rw [Workspace.parent?_pushElement, hlength]
    split
    · rfl
    · next hne =>
        refine h.parent_eq i (Nat.lt_of_le_of_ne ?_ fun heq => hne (by rw [heq]))
        simpa [Nat.lt_succ_iff] using hi
  · rw [h.aliases_eq, List.map_append, List.map_singleton, nameTable_concat, List.length_map]

/-- A member is given to the class whose body is open. -/
theorem addMember {name : String} {body body' : Body}
    (h : Progress project diagrams (declared ++ [(name, body)]) blueprints
      (some (.element ⟨declared.length + 1⟩ .umlClass)) r) (span : Text.Span)
    {line : List Char} {member : Member} (hline : Line.member? .umlClass line = some member)
    (hbody : body.withMember? member = some body') :
    Progress project diagrams (declared ++ [(name, body')]) blueprints
      (some (.element ⟨declared.length + 1⟩ .umlClass)) (r.addMember span line) := by
  have hlast : r.store.contents = ((project, .project) :: declared) ++ [(name, body)] :=
    h.contents_eq
  obtain ⟨w, hw, hcontents, hdiagrams, hparent⟩ := Workspace.addMember_last hlast hbody
  have hadded : r.addMember span line = { r with store := w } := by
    have hrequest : ModelStore.addMember r.store ⟨declared.length + 1⟩ member = (.ok (), w) := hw
    simp only [Reader.addMember, h.body_eq, hline, hrequest]
  rw [hadded]
  refine { h with
    contents_eq := hcontents
    diagrams_eq := hdiagrams.trans h.diagrams_eq
    parent_eq := fun i hi => ?_
    aliases_eq := by simpa using h.aliases_eq }
  rw [hparent]
  exact h.parent_eq i (by simpa using hi)

theorem closeBlock (h : Progress project diagrams declared blueprints owner r)
    (howner : owner.isSome) (span : Text.Span) :
    Progress project diagrams declared blueprints none (r.closeBlock span) := by
  obtain ⟨opened, hopened⟩ := Option.isSome_iff_exists.1 (h.bodyOpen.trans howner)
  have hclosed : r.closeBlock span = { r with body := none } := by
    simp only [Reader.closeBlock, hopened]
  rw [hclosed]
  exact { h with body_eq := rfl }

/-- The line of an association between two declared elements records it. -/
theorem relate (h : Progress project diagrams declared blueprints owner r) (span : Text.Span)
    (m1 m2 : Option String) {left right name : String} {source target : ElementId × ElementKind}
    (hsource : r.resolve? left = some source) (htarget : r.resolve? right = some target)
    (hname : trim name.toList = name.toList)
    (hinclude : ¬ "<<include>>".toList <:+: name.toList)
    (hextend : ¬ "<<extend>>".toList <:+: name.toList) :
    Progress project diagrams declared
      (blueprints ++ [Writing.writtenBlueprint source.1 target.1 name m1 m2]) owner
      (r.relate span (Writing.associationParts left right name m1 m2)) := by
  have hblueprint : Reader.blueprint? (Writing.associationParts left right name m1 m2)
      source target = some (Writing.writtenBlueprint source.1 target.1 name m1 m2) := by
    simp only [Reader.blueprint?, Writing.associationParts,
      Writing.classifyArrow_dashes hname hinclude hextend]
    rfl
  have hrelated : r.relate span (Writing.associationParts left right name m1 m2) = { r with
      blueprints := r.blueprints ++ [Writing.writtenBlueprint source.1 target.1 name m1 m2] } := by
    simp only [Reader.relate, Writing.associationParts] at hblueprint ⊢
    simp only [hsource, htarget, hblueprint]
  rw [hrelated]
  exact { h with blueprints_eq := by rw [h.blueprints_eq] }

/-! ### The lines of an element -/

omit r in
/-- Comments change nothing. -/
theorem readLines_comments {e : Element}
    (hcommand : ∀ value ∈ e.tag? Writing.commandTag, '\n' ∉ value.toList)
    {lines : List Text.Line}
    (hlines : lines.map Text.Line.text = Writing.trimmedLines (Writing.commentLines e))
    (r : Reader Workspace) : r.readLines lines = r := by
  have hcomments : ∀ line ∈ lines, ∃ rest, line.text = '\'' :: rest := by
    intro line hline
    have hmem : line.text ∈ Writing.trimmedLines (Writing.commentLines e) :=
      hlines ▸ List.mem_map_of_mem hline
    obtain ⟨comment, hcomment, htext⟩ := List.mem_map.1 hmem
    obtain ⟨-, rest, hrest⟩ := Writing.comment_of_mem_commentLines hcommand hcomment
    refine ⟨Text.trimEnd rest, ?_⟩
    rw [← htext, hrest, Text.trim_cons_of_not_isBlank rfl]
  clear hlines
  induction lines with
  | nil => rfl
  | cons line others ih =>
      obtain ⟨rest, hline⟩ := hcomments line List.mem_cons_self
      have hstep : r.step line = r := by
        simp only [Reader.step, hline, Writing.shape_comment]
      rw [Reader.readLines, List.foldl_cons, hstep]
      exact ih fun other hother => hcomments other (List.mem_cons_of_mem _ hother)

/-- Lines that are members are given to the class whose body is open, one after the other. -/
theorem members {name : String} {members : List (List Char × Member)}
    (hmembers : ∀ x ∈ members, LineShape.of true x.1 = .member ∧
      Line.member? .umlClass x.1 = some x.2) {lines : List Text.Line}
    (hlines : lines.map Text.Line.text = members.map Prod.fst) {body body' : Body}
    (hbody : (members.map Prod.snd).foldlM Body.withMember? body = some body')
    (h : Progress project diagrams (declared ++ [(name, body)]) blueprints
      (some (.element ⟨declared.length + 1⟩ .umlClass)) r) :
    Progress project diagrams (declared ++ [(name, body')]) blueprints
      (some (.element ⟨declared.length + 1⟩ .umlClass)) (r.readLines lines) := by
  induction members generalizing lines body r with
  | nil =>
      obtain rfl := List.map_eq_nil_iff.1 hlines
      obtain rfl := Option.some.inj hbody
      exact h
  | cons x rest ih =>
      obtain ⟨line, others, rfl, hline, hothers⟩ := List.map_eq_cons_iff.1 hlines
      obtain ⟨next, hnext, hrest⟩ := Option.bind_eq_some_iff.1 hbody
      obtain ⟨hshape, hmember⟩ := hmembers x List.mem_cons_self
      have hstep : r.step line = r.addMember line.span line.text := by
        simp only [Reader.step, h.bodyOpen, hline, Option.isSome_some, hshape]
      rw [Reader.readLines, List.foldl_cons, hstep]
      exact ih (fun y hy => hmembers y (List.mem_cons_of_mem _ hy)) hothers hrest
        (h.addMember line.span (hline ▸ hmember) hnext)

/-- The lines of a class declare it with its members. -/
theorem classLines (h : Progress project diagrams declared blueprints none r) {name : String}
    (hname : Writing.Quotable name) {features : Classifier}
    (hfeatures : Writing.PlainClassifier features) {lines : List Text.Line}
    (hlines : lines.map Text.Line.text
      = Writing.trimmedLines (Writing.classLines name features)) :
    Progress project diagrams
      (declared ++ [(name, .umlClass (Writing.readFeatures features))]) blueprints none
      (r.readLines lines) := by
  obtain ⟨header, members, close, rfl, hheader, hmembers, hclose⟩ :=
    Writing.exists_of_classLines hfeatures hlines
  have hopened : r.step header = r.openEntity header.span (Writing.classHeader name) := by
    simp only [Reader.step, h.bodyOpen, hheader, Option.isSome_none,
      Writing.shape_headerText false hname]
  have hfilled := Progress.members hfeatures.readable_members hmembers
    (Writing.foldlM_writtenMembers features) (h.openEntity header.span name)
  have hclosed := hfilled.closeBlock rfl close.span
  have hread : r.readLines (header :: (members ++ [close]))
      = ((r.openEntity header.span (Writing.classHeader name)).readLines members).closeBlock
          close.span := by
    rw [readLines_cons, hopened, readLines_append, readLines_cons, readLines_nil, Reader.step,
      hfilled.bodyOpen, hclose]
    simp only [Option.isSome_some, Writing.shape_close]
  rw [hread]
  exact hclosed

/-- The line of an association between declared elements, outside of any body. -/
theorem associationText (h : Progress project diagrams declared blueprints none r)
    {left right name : String} {m1 m2 : Option String} {source target : ElementId × ElementKind}
    (hshape : LineShape.of false (Writing.associationText left right name m1 m2)
      = .relationship (Writing.associationParts left right name m1 m2))
    (hsource : r.resolve? left = some source) (htarget : r.resolve? right = some target)
    (hname : trim name.toList = name.toList)
    (hinclude : ¬ "<<include>>".toList <:+: name.toList)
    (hextend : ¬ "<<extend>>".toList <:+: name.toList) {line : Text.Line}
    (hline : line.text = Writing.associationText left right name m1 m2) :
    Progress project diagrams declared
      (blueprints ++ [Writing.writtenBlueprint source.1 target.1 name m1 m2]) none
      (r.step line) := by
  have hstep : r.step line
      = r.relate line.span (Writing.associationParts left right name m1 m2) := by
    simp only [Reader.step, h.bodyOpen, hline, Option.isSome_none, hshape]
  rw [hstep]
  exact h.relate line.span m1 m2 hsource htarget hname hinclude hextend

variable {w : Workspace} {classes associations : List Element}

/-- The lines of an association between declared classes record it. -/
theorem associationLine (hw : Writing.Exportable w classes associations)
    (h : Progress project diagrams (classes.map fun c => (c.name, Writing.readBack classes c.body))
      blueprints none r) {e : Element} {relationship : Relationship}
    (hlink : Writing.ReadableLink classes e relationship) {lines : List Text.Line}
    (hlines : lines.map Text.Line.text = Writing.trimmedLines
      (Writing.commentLines e ++ [Writing.associationLine w e.name relationship])) :
    Progress project diagrams (classes.map fun c => (c.name, Writing.readBack classes c.body))
      (blueprints ++ [Writing.linkBlueprint classes e.name relationship]) none
      (r.readLines lines) := by
  obtain ⟨left, hleft, hsource, hleading⟩ := hlink.source
  obtain ⟨right, hright, htarget⟩ := hlink.target
  rw [Writing.trimmedLines_append] at hlines
  obtain ⟨comments, others, rfl, hcomments, hothers⟩ := List.map_eq_append_iff.1 hlines
  obtain ⟨line, rfl, hline⟩ := List.map_eq_singleton_iff.1 hothers
  have htext : line.text = Writing.associationText left.name right.name e.name
      relationship.end1.spec.multiplicity relationship.end2.spec.multiplicity := by
    rw [hline]
    show trim (Writing.associationLine w e.name relationship).toList = _
    rw [hw.toList_associationLine hlink.association hleft hsource hright htarget]
    exact Writing.trim_associationText (hw.quotable hleft) (hw.quotable hright)
      hlink.association.trimmed
  have hread : r.readLines (comments ++ [line]) = r.step line := by
    rw [readLines_append, readLines_comments hlink.command hcomments, readLines_cons, readLines_nil]
  -- Both ends stand at the places that the text gives them, and nothing else has their names.
  have hresolved : ∀ c ∈ classes,
      r.resolve? c.name = some (Writing.placeOf classes c.id, .umlClass) := by
    intro c hc
    obtain ⟨features, hclass⟩ := hw.readable c hc
    have hplace : (classes.map fun c => (c.name, Writing.readBack classes c.body))[
        (Writing.placeOf classes c.id).index - 1]?
          = some (c.name, Writing.readBack classes c.body) := by
      rw [List.getElem?_map, hw.getElem?_place hc, Option.map_some]
    refine h.resolve? (get?_nameTable_of_nodup ?_ ?_) hplace (by rw [hclass.body_eq]; rfl)
    · rw [List.map_map]
      exact hw.names_nodup
    · rw [List.getElem?_map]
      exact congrArg (Option.map Prod.fst) hplace
  rw [hread]
  have hrelated := h.associationText
    (Writing.shape_associationText (fun _ => hleading) (hw.quotable hleft) (hw.quotable hright)
      hlink.association.trimmed hlink.association.multiplicity1 hlink.association.multiplicity2)
    (hresolved left hleft) (hresolved right hright)
    hlink.association.trimmed hlink.association.no_include hlink.association.no_extend htext
  rw [hsource, htarget] at hrelated
  exact hrelated

/-! ### The lines of a text -/

/-- The lines of some classes declare them, in their order. -/
theorem readClasses {es : List Element}
    (hes : ∀ e ∈ es, ∃ features, Writing.ReadableClass e features) {lines : List Text.Line}
    (hlines : lines.map Text.Line.text
      = Writing.trimmedLines (es.flatMap (Writing.elementLines w)))
    (h : Progress project diagrams declared blueprints none r) :
    Progress project diagrams
      (declared ++ es.map fun e => (e.name, Writing.readBack classes e.body)) blueprints none
      (r.readLines lines) := by
  induction es generalizing lines declared r with
  | nil =>
      obtain rfl := List.map_eq_nil_iff.1 hlines
      rw [List.map_nil, List.append_nil]
      exact h
  | cons e rest ih =>
      obtain ⟨features, hclass⟩ := hes e List.mem_cons_self
      rw [List.flatMap_cons, Writing.trimmedLines_append] at hlines
      obtain ⟨first, others, rfl, hfirst, hothers⟩ := List.map_eq_append_iff.1 hlines
      rw [Writing.elementLines_class hclass, Writing.trimmedLines_append] at hfirst
      obtain ⟨comments, written, rfl, hcomments, hwritten⟩ := List.map_eq_append_iff.1 hfirst
      have hdeclared := h.classLines hclass.name hclass.plain hwritten
      rw [hclass.readFeatures_eq] at hdeclared
      have hrest := ih (fun f hf => hes f (List.mem_cons_of_mem _ hf)) hothers hdeclared
      rw [List.append_assoc] at hrest
      rw [readLines_append, readLines_append, readLines_comments hclass.command hcomments,
        List.map_cons, hclass.body_eq]
      exact hrest

/-- The lines of some associations record them, in their order. -/
theorem readAssociations (hw : Writing.Exportable w classes associations) {es : List Element}
    (hes : ∀ e ∈ es, ∃ relationship, Writing.ReadableLink classes e relationship)
    {lines : List Text.Line} (hlines : lines.map Text.Line.text
      = Writing.trimmedLines (es.flatMap (Writing.elementLines w)))
    (h : Progress project diagrams (classes.map fun c => (c.name, Writing.readBack classes c.body))
      blueprints none r) :
    Progress project diagrams (classes.map fun c => (c.name, Writing.readBack classes c.body))
      (blueprints ++ Writing.linkBlueprints classes es) none (r.readLines lines) := by
  induction es generalizing lines blueprints r with
  | nil =>
      obtain rfl := List.map_eq_nil_iff.1 hlines
      rw [Writing.linkBlueprints, List.filterMap_nil, List.append_nil]
      exact h
  | cons e rest ih =>
      obtain ⟨relationship, hlink⟩ := hes e List.mem_cons_self
      rw [List.flatMap_cons, Writing.trimmedLines_append] at hlines
      obtain ⟨first, others, rfl, hfirst, hothers⟩ := List.map_eq_append_iff.1 hlines
      rw [Writing.elementLines_link hlink] at hfirst
      have hrest := ih (fun f hf => hes f (List.mem_cons_of_mem _ hf)) hothers
        (associationLine hw h hlink hfirst)
      have hblueprints : Writing.linkBlueprints classes (e :: rest)
          = Writing.linkBlueprint classes e.name relationship
            :: Writing.linkBlueprints classes rest := by
        simp [Writing.linkBlueprints, hlink.body_eq, Body.relationship?]
      rw [Reader.readLines, List.foldl_append, hblueprints, List.append_cons]
      exact hrest

/-- The end of a text reports nothing where no block is open. -/
theorem finish (h : Progress project diagrams declared blueprints none r) (stop : Text.Span) :
    Progress project diagrams declared blueprints none (r.finish stop) := by
  have hbody : r.body = none := Option.map_eq_none_iff.1 h.body_eq
  have hopen : r.openBlocks = [] := by
    rw [Reader.openBlocks, hbody, h.containers_eq]
    rfl
  exact { h with
    body_eq := rfl
    containers_eq := rfl
    diagnostics_eq := by rw [Reader.finish, hopen, h.diagnostics_eq]; rfl }

/-- **Reading a written text.** The classes are declared and the associations recorded in the order
in which they were written, and nothing is reported. -/
theorem readText (hw : Writing.Exportable w classes associations) {store : Workspace}
    (hstore : store.contents = [(project, .project)]) :
    Progress project store.diagrams
      (classes.map fun c => (c.name, Writing.readBack classes c.body))
      (Writing.linkBlueprints classes associations) none
      (Reader.readText store Workspace.root
        (Writing.writeText w ((classes ++ associations).map Element.id)).toList) := by
  have hlines := hw.text_locatedLines
  simp only [Writing.trimmedLines_append] at hlines
  obtain ⟨others, last, htext, hothers, hlast⟩ := List.map_eq_append_iff.1 hlines
  obtain ⟨front, links, rfl, hfront, hlinks⟩ := List.map_eq_append_iff.1 hothers
  obtain ⟨first, body, rfl, hfirst, hbody⟩ := List.map_eq_append_iff.1 hfront
  obtain ⟨opening, rfl, hopening⟩ := List.map_eq_singleton_iff.1 hfirst
  obtain ⟨closing, rfl, hclosing⟩ := List.map_eq_singleton_iff.1 hlast
  have hmarker : ∀ (line : Text.Line) (r : Reader Workspace),
      (∃ rest, line.text = '@' :: rest) → r.step line = r := by
    intro line r hmarked
    obtain ⟨rest, hline⟩ := hmarked
    simp only [Reader.step, hline, Writing.shape_marker]
  have hdeclared : Progress project store.diagrams
      ([] ++ classes.map fun c => (c.name, Writing.readBack classes c.body)) [] none _ :=
    readClasses hw.readable hbody (start hstore)
  rw [List.nil_append] at hdeclared
  have hread := readAssociations hw hw.linked hlinks hdeclared
  rw [List.nil_append] at hread
  have hlast : ({ store, root := Workspace.root : Reader Workspace }).readLines
      (Text.locatedLines (Writing.writeText w ((classes ++ associations).map Element.id)).toList)
        = (({ store, root := Workspace.root : Reader Workspace }).readLines body).readLines
            links := by
    rw [htext]
    simp only [Reader.readLines, List.foldl_append, List.foldl_cons, List.foldl_nil]
    rw [hmarker opening _ ⟨_, hopening⟩, hmarker closing _ ⟨_, hclosing⟩]
  rw [Reader.readText, hlast]
  exact hread.finish _

end Progress

end Reader

end UmlText
