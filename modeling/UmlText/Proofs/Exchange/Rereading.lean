import UmlText.Proofs.Exchange.Items
import UmlText.Proofs.Exchange.Reading

/-!
# UmlText.Proofs.Exchange.Rereading

**Reading items back, whatever they are called.** A bare name that other lines begin with makes the
line of an association something else (`Link.Misread`); every other association is read as one
(`shape_text_iff`). Where associations stand below the classes that they name (`Anchored`) and none
is misread, a reader declares the classes of a text in their order and records its associations
between them (`HasRead.readText`). Two classes may have one name, which then stands for the last.
-/

namespace UmlText

open Text (trim)

namespace Writing

/-! ### Lines that are taken for something else -/

/-- An association whose line is no relationship: it begins with a bare name that other lines begin
with. Only `package` may begin it, where a closing brace follows. -/
structure Link.Misread (l : Link) : Prop where
  bare : isPlainName l.left
  not_leading : ¬ Leading l.left
  no_brace : l.left = "package" → '\x7d' ∉ l.text

/-- Behind the first name of an association stands something that a header takes for a name. -/
theorem name?_multiplicityText {m : Option String} (h : ∀ t ∈ m, Quotable t) (rest : List Char) :
    (Line.name? (multiplicityText m ++ '-' :: rest)).isSome := by
  cases m with
  | none =>
      rw [multiplicityText, List.nil_append, Line.name?]
      have hquoted : Line.quoted? ('-' :: rest) = none :=
        Line.quoted?_eq_none (by intro c hc; cases hc; decide)
      have hrun : Line.run? Line.isNameChar ('-' :: rest)
          = some ((('-' :: rest).takeWhile Line.isNameChar),
            ('-' :: rest).dropWhile Line.isNameChar) := by
        rw [Line.run?]
        rfl
      rw [hquoted, hrun]
      rfl
  | some t =>
      have ht := h t rfl
      have hquoted := ht.name? (' ' :: '-' :: rest)
      simp only [multiplicityText, List.append_assoc, List.cons_append, List.nil_append]
        at hquoted ⊢
      rw [hquoted]
      rfl

/-- Headers are read before relationships. -/
theorem not_relationship_of_isSome {line : List Char}
    (h : Line.isIgnored line ∨ (Line.packageHeader? line).isSome ∨
      (Line.entityHeader? line).isSome) (parts : Line.RelationshipLine) :
    LineShape.of false line ≠ .relationship parts := by
  grind [LineShape.of]

theorem isSome_nameAndAlias? {cs : List Char} (h : (Line.name? cs).isSome) :
    (Line.nameAndAlias? cs).isSome := by
  obtain ⟨⟨name, rest⟩, hname⟩ := Option.isSome_iff_exists.1 h
  simp only [Line.nameAndAlias?, hname, Option.bind_eq_bind, Option.bind_some]
  split <;> rfl

theorem isSome_packageHeader? {rest : List Char} (hgap : ∀ c ∈ rest.head?, Text.isGap c = false)
    (hname : (Line.name? rest).isSome) (hbrace : '\x7d' ∉ "package".toList ++ ' ' :: rest) :
    (Line.packageHeader? ("package".toList ++ ' ' :: rest)).isSome := by
  obtain ⟨named, hnamed⟩ := Option.isSome_iff_exists.1 (isSome_nameAndAlias? hname)
  have hcontains : ("package".toList ++ ' ' :: rest).contains '\x7d' = false := by
    simpa using hbrace
  simp only [Line.packageHeader?, hcontains, Line.keyword?_append "package" hgap, hnamed,
    Option.bind_eq_bind, Option.bind_some]
  rfl

/-- Behind the keyword of an entity and a blank, anything that has a name is a header. -/
theorem isSome_entityHeader? {word : String}
    (hword : word ∈ ["abstract", "class", "interface", "enum", "actor", "usecase"])
    {rest : List Char} (hgap : ∀ c ∈ rest.head?, Text.isGap c = false)
    (hclass : Line.keyword? "class" rest = none) (hname : (Line.name? rest).isSome) :
    (Line.entityHeader? (word.toList ++ ' ' :: rest)).isSome := by
  obtain ⟨named, hnamed⟩ := Option.isSome_iff_exists.1 (isSome_nameAndAlias? hname)
  have hkeyword : ∃ kind, Line.entityKeyword? (word.toList ++ ' ' :: rest) = some (kind, rest) := by
    have hread := Line.keyword?_append word hgap
    simp only [List.mem_cons, List.not_mem_nil, or_false] at hword
    have hreadable : ReadableName word := by
      rcases hword with rfl | rfl | rfl | rfl | rfl | rfl <;>
        exact ⟨by decide, List.all_eq_true.1 (by decide)⟩
    have hother : ∀ other : String, word ≠ other → ' ' ∉ other.toList →
        Line.keyword? other (word.toList ++ ' ' :: rest) = none := fun _ hne hblank =>
      keyword?_eq_none hreadable hne hblank rest
    rcases hword with rfl | rfl | rfl | rfl | rfl | rfl
    · exact ⟨(.umlClass, true), by rw [Line.entityKeyword?, hread, Option.bind_some, hclass]; rfl⟩
    all_goals
      simp (disch := decide) only [Line.entityKeyword?, hother, hread]
      exact ⟨_, rfl⟩
  obtain ⟨kind, hkeyword⟩ := hkeyword
  simp only [Line.entityHeader?, hkeyword, hnamed, Option.bind_eq_bind, Option.bind_some]
  rfl

theorem not_relationship_of_misread {l : Link} (hplain : l.Plain) (h : l.Misread)
    (parts : Line.RelationshipLine) : LineShape.of false l.text ≠ .relationship parts := by
  refine not_relationship_of_isSome ?_ parts
  obtain ⟨rest, htext, hgap, hclass, hname⟩ : ∃ rest, l.text = l.left.toList ++ ' ' :: rest ∧
      (∀ c ∈ rest.head?, Text.isGap c = false) ∧ Line.keyword? "class" rest = none ∧
      (Line.name? rest).isSome := by
    refine ⟨_, by rw [Link.text, associationText, nameText_of_isPlainName h.bare], ?_, ?_,
      name?_multiplicityText hplain.multiplicity1 _⟩
    · intro c hc
      rw [multiplicityText_head] at hc
      obtain rfl := Option.some.inj hc
      split <;> rfl
    · cases l.multiplicity1 <;> rfl
  have hbrace := h.no_brace
  rw [htext] at hbrace ⊢
  by_cases hskinparam : "skinparam".toList <+: l.left.toList
  · refine .inl ?_
    obtain ⟨tail, htail⟩ := hskinparam
    rw [← htail]
    simp [Line.isIgnored, Line.ignoredStarts, List.isPrefixOf]
  · have hreserved : l.left ∈ reservedNames := by
      by_contra hnot
      exact h.not_leading ⟨hnot, hskinparam⟩
    have hentity := fun hword : l.left ∈ _ => isSome_entityHeader? hword hgap hclass hname
    simp only [reservedNames, List.mem_cons, List.not_mem_nil, or_false] at hreserved hentity
    rcases hreserved with heq | heq | heq | heq | hkeyword
    · exact .inl (by simp [heq, Line.isIgnored, Line.ignoredStarts, List.isPrefixOf])
    · exact .inl (by simp [heq, Line.isIgnored, Line.ignoredStarts, List.isPrefixOf])
    · exact .inl (by simp [heq, Line.isIgnored, Line.ignoredStarts, List.isPrefixOf])
    · rw [heq] at hbrace ⊢
      exact .inr (.inl (isSome_packageHeader? hgap hname (hbrace rfl)))
    · exact .inr (.inr (hentity hkeyword))

/-- A closing brace keeps the line of an association from being the header of a package. -/
theorem shape_text_package {l : Link} (hplain : l.Plain) (hleft : l.left = "package")
    (hbrace : '\x7d' ∈ l.text) : LineShape.of false l.text = .relationship l.parts := by
  have hline := hplain.relationshipLine?_text
  obtain ⟨rest, htext⟩ : ∃ rest, l.text = "package".toList ++ ' ' :: rest :=
    ⟨_, by rw [Link.text, associationText, hleft]; rfl⟩
  have hpackage : Line.packageHeader? l.text = none := by
    have hcontains : l.text.contains '\x7d' := by simpa using hbrace
    simp only [Line.packageHeader?, hcontains, if_true]
    rfl
  rw [htext] at hline hpackage ⊢
  have hignored : Line.isIgnored ("package".toList ++ ' ' :: rest) = false := by
    simp [Line.isIgnored, Line.ignoredStarts, List.isPrefixOf]
  have hentity : Line.entityHeader? ("package".toList ++ ' ' :: rest) = none := by
    simp [Line.entityHeader?, Line.entityKeyword?, Line.keyword?, Line.word?, List.isPrefixOf?]
  have hclose : Line.isBlockClose ("package".toList ++ ' ' :: rest) = false := by
    simp [Line.isBlockClose]
  simp only [LineShape.of, hignored, hpackage, hentity, hclose, hline, Bool.false_and,
    Bool.false_eq_true, if_false]

/-- **An association is read as one unless its line is misread.** -/
theorem shape_text_iff {l : Link} (hplain : l.Plain) :
    LineShape.of false l.text = .relationship l.parts ↔ ¬ l.Misread := by
  refine ⟨fun h hmisread => not_relationship_of_misread hplain hmisread _ h, fun h => ?_⟩
  by_cases hpackage : l.left = "package" ∧ '\x7d' ∈ l.text
  · exact shape_text_package hplain hpackage.1 hpackage.2
  · refine shape_associationText (fun hbare => ?_) hplain.left hplain.right hplain.trimmed
      hplain.multiplicity1 hplain.multiplicity2
    by_contra hleading
    exact h ⟨hbare, hleading, fun hleft hbrace => hpackage ⟨hleft, hbrace⟩⟩

/-! ### What is read of items -/

/-- The element that a name stands for below classes with the given names. -/
def standsFor (names : List String) (name : String) : ElementId :=
  ((nameTable names).get? name).getD Workspace.root

namespace Item

/-- What an item declares. -/
def declares : Item → List (String × Body)
  | ofClass name features => [(name, .umlClass (readFeatures features))]
  | ofLink _ => []

/-- What an item records below classes with the given names. -/
def records (names : List String) : Item → List Blueprint
  | ofClass _ _ => []
  | ofLink link => [link.blueprint (standsFor names link.left) (standsFor names link.right)]

/-- An association whose ends are among the given names. -/
def Anchored (names : List String) : Item → Prop
  | ofClass _ _ => True
  | ofLink link => link.left ∈ names ∧ link.right ∈ names

/-- An association whose line is taken for something else. -/
def Misread : Item → Prop
  | ofClass _ _ => False
  | ofLink link => link.Misread

end Item

/-- The names of the classes among some items. -/
def classNames (items : List Item) : List String :=
  (items.flatMap Item.declares).map Prod.fst

/-- Every association stands below the classes that it names; those in `names` stand above all
items. -/
def Anchored (names : List String) : List Item → Prop
  | [] => True
  | item :: rest => item.Anchored names ∧ Anchored (names ++ classNames [item]) rest

/-- What items record below classes with the given names. -/
def recorded (names : List String) : List Item → List Blueprint
  | [] => []
  | item :: rest => item.records names ++ recorded (names ++ classNames [item]) rest

theorem classNames_append (items others : List Item) :
    classNames (items ++ others) = classNames items ++ classNames others := by
  rw [classNames, List.flatMap_append, List.map_append]
  rfl

theorem recorded_append (names : List String) (items others : List Item) :
    recorded names (items ++ others)
      = recorded names items ++ recorded (names ++ classNames items) others := by
  induction items generalizing names with
  | nil => simp [recorded, classNames]
  | cons item rest ih =>
      rw [List.cons_append, recorded, ih, recorded, List.append_assoc, List.append_assoc,
        ← classNames_append, List.singleton_append]

theorem Item.Anchored.mono {names others : List String} {item : Item} (h : item.Anchored names)
    (hsubset : names ⊆ others) : item.Anchored others := by
  cases item with
  | ofClass _ _ => trivial
  | ofLink link => exact ⟨hsubset h.1, hsubset h.2⟩

theorem anchored_append {names : List String} {items others : List Item} :
    Anchored names (items ++ others) ↔
      Anchored names items ∧ Anchored (names ++ classNames items) others := by
  induction items generalizing names with
  | nil => simp [Anchored, classNames]
  | cons item rest ih =>
      rw [List.cons_append, Anchored, Anchored, ih, and_assoc, List.append_assoc,
        ← classNames_append, List.singleton_append]

/-- Below the classes that they name associations stand in any order. -/
theorem anchored_of_forall {names : List String} {items : List Item}
    (h : ∀ item ∈ items, item.Anchored names) : Anchored names items := by
  induction items generalizing names with
  | nil => trivial
  | cons item rest ih =>
      obtain ⟨hitem, hrest⟩ := List.forall_mem_cons.1 h
      exact ⟨hitem, ih fun other hother =>
        (hrest other hother).mono (List.subset_append_left _ _)⟩

/-- The names that an anchored association stands between are declared. -/
theorem Anchored.of_mem {names : List String} {items : List Item} (h : Anchored names items)
    {item : Item} (hitem : item ∈ items) : item.Anchored (names ++ classNames items) := by
  obtain ⟨before, after, rfl⟩ := List.append_of_mem hitem
  have hanchored := (anchored_append.1 h).2.1
  rw [classNames_append, ← List.append_assoc]
  exact hanchored.mono (List.subset_append_left _ _)

/-- Of items that are not anchored, one is the first. -/
theorem exists_of_not_anchored {names : List String} {items : List Item}
    (h : ¬ Anchored names items) :
    ∃ before item after, items = before ++ item :: after ∧ Anchored names before ∧
      ¬ item.Anchored (names ++ classNames before) := by
  induction items generalizing names with
  | nil => exact absurd trivial h
  | cons item rest ih =>
      by_cases hitem : item.Anchored names
      · obtain ⟨before, found, after, rfl, hbefore, hfound⟩ := ih fun hrest => h ⟨hitem, hrest⟩
        refine ⟨item :: before, found, after, rfl, ⟨hitem, hbefore⟩, ?_⟩
        rwa [List.append_assoc, ← classNames_append] at hfound
      · exact ⟨[], item, rest, rfl, trivial, by simpa [classNames] using hitem⟩

end Writing

namespace Reader

open Writing (Item classNames recorded)

/-! ### The lines of a class -/

/-- A line that a reader takes for no relationship. -/
def Unrelated (r : Reader Workspace) (line : Text.Line) : Prop :=
  ∀ parts, LineShape.of r.body.isSome line.text ≠ .relationship parts

/-- The header of a class opens a body, even if the class is refused. -/
theorem step_header {name : String} (hname : Writing.Quotable name) {line : Text.Line}
    (hline : line.text = Writing.headerText name) (r : Reader Workspace) :
    r.Unrelated line ∧ r.step line = r.openEntity line.span (Writing.classHeader name) ∧
      (r.step line).body.isSome := by
  have hshape := Writing.shape_headerText r.body.isSome hname
  rw [← hline] at hshape
  have hstep : r.step line = r.openEntity line.span (Writing.classHeader name) := by
    simp only [Reader.step, hshape]
  refine ⟨fun parts hparts => ?_, hstep, ?_⟩
  · rw [hshape] at hparts
    cases hparts
  · rw [hstep]
    rcases r.openEntity_cases line.span (Writing.classHeader name) with
      ⟨error, store, -, hread⟩ | ⟨id, store, -, hread⟩ <;> rw [hread] <;> rfl

theorem body_addMember (r : Reader Workspace) (span : Text.Span) (line : List Char) :
    (r.addMember span line).body = r.body := by
  rcases r.addMember_cases span line with ⟨-, h⟩ | ⟨id, kind, -, -, h⟩ |
    ⟨id, kind, member, error, store, -, -, -, h⟩ | ⟨id, kind, member, store, -, -, -, h⟩ <;>
    rw [h] <;> rfl

section Body

variable {motive : Reader Workspace → Prop}
  (step : ∀ r line, Unrelated r line → motive r → motive (r.step line))

include step

/-- Members are read in an open body. -/
theorem members_induct {lines : List Text.Line}
    (hlines : ∀ line ∈ lines, LineShape.of true line.text = .member) {r : Reader Workspace}
    (hbody : r.body.isSome) (h : motive r) :
    motive (r.readLines lines) ∧ (r.readLines lines).body.isSome := by
  refine readLines_induct (motive := fun r => motive r ∧ r.body.isSome) ?_ ⟨h, hbody⟩
  intro r line hline hsofar
  obtain ⟨h, hbody⟩ := hsofar
  have hshape : LineShape.of r.body.isSome line.text = .member := by rw [hbody, hlines line hline]
  refine ⟨step r line (fun parts hparts => ?_) h, ?_⟩
  · rw [hshape] at hparts
    cases hparts
  · rw [Reader.step, hshape]
    simp only [body_addMember, hbody]

/-- **The lines of a class** are its header and the lines of its body. What survives a line that is
no relationship survives the lines of the body. -/
theorem classLines_induct {name : String} {features : Classifier}
    (hfeatures : Writing.PlainClassifier features) {lines : List Text.Line}
    (hlines : lines.map Text.Line.text
      = Writing.trimmedLines (Writing.classLines name features)) :
    ∃ header body, lines = header :: body ∧ header.text = Writing.headerText name ∧
      ∀ r : Reader Workspace, r.body.isSome → motive r → motive (r.readLines body) := by
  obtain ⟨header, members, close, rfl, hheader, hmembers, hclose⟩ :=
    Writing.exists_of_classLines hfeatures hlines
  have hshapes : ∀ line ∈ members, LineShape.of true line.text = .member := by
    intro line hline
    have htext : line.text ∈ (Writing.writtenMembers features).map Prod.fst :=
      hmembers ▸ List.mem_map_of_mem hline
    obtain ⟨x, hx, hline⟩ := List.mem_map.1 htext
    rw [← hline]
    exact (hfeatures.readable_members x hx).1
  refine ⟨header, _, rfl, hheader, fun r hopened h => ?_⟩
  obtain ⟨hfilled, hopen⟩ := members_induct step hshapes hopened h
  rw [readLines_append, readLines_cons, readLines_nil]
  refine step _ _ (fun parts hparts => ?_) hfilled
  rw [hopen, hclose] at hparts
  cases hparts

end Body

/-! ### Reading items back -/

/-- The markers around items are passed over. -/
theorem readText_itemText {items : List Item} (hplain : ∀ item ∈ items, item.Plain)
    (store : Workspace) (root : ElementId) :
    ∃ body, body.map Text.Line.text = Writing.trimmedLines (items.flatMap Item.lines) ∧
      Reader.readText store root (Writing.itemText items).toList
        = (({ store, root } : Reader Workspace).readLines body).finish
            (Text.endSpan (Writing.itemText items).toList) := by
  have hlines := Writing.text_locatedLines_itemText hplain
  rw [Writing.itemLines, Writing.trimmedLines_append, Writing.trimmedLines_append] at hlines
  obtain ⟨front, last, htext, hfront, hlast⟩ := List.map_eq_append_iff.1 hlines
  obtain ⟨first, body, rfl, hfirst, hbody⟩ := List.map_eq_append_iff.1 hfront
  obtain ⟨opening, rfl, hopening⟩ := List.map_eq_singleton_iff.1 hfirst
  obtain ⟨closing, rfl, hclosing⟩ := List.map_eq_singleton_iff.1 hlast
  have hmarker : ∀ (line : Text.Line) (rest : List Char) (r : Reader Workspace),
      line.text = '@' :: rest → r.step line = r := by
    intro line rest r hline
    simp only [Reader.step, hline, Writing.shape_marker]
  refine ⟨body, hbody, ?_⟩
  rw [Reader.readText, htext, readLines_append, readLines_append, readLines_cons, readLines_nil,
    readLines_cons, readLines_nil, hmarker opening _ _ hopening, hmarker closing _ _ hclosing]

/-- A reader that has read the lines of some items. -/
def HasRead (project : String) (diagrams : List Diagram) (items : List Item)
    (r : Reader Workspace) : Prop :=
  Progress project diagrams (items.flatMap Item.declares) (recorded [] items) none r

namespace HasRead

variable {project : String} {diagrams : List Diagram} {items above : List Item}
  {r : Reader Workspace}

theorem start {store : Workspace} (hstore : store.contents = [(project, .project)]) :
    HasRead project store.diagrams [] ({ store, root := Workspace.root } : Reader Workspace) :=
  Progress.start hstore

/-- The name of a class stands for the last one of that name. -/
theorem resolve? (h : HasRead project diagrams items r) {name : String}
    (hname : name ∈ classNames items) :
    r.resolve? name = some (Writing.standsFor (classNames items) name, .umlClass) := by
  obtain ⟨id, hid⟩ := Option.isSome_iff_exists.1 (isSome_get?_nameTable.2 hname)
  obtain ⟨i, rfl, hi⟩ := getElem?_of_get?_nameTable hid
  obtain ⟨⟨found, body⟩, hbody, hfound⟩ :=
    Option.map_eq_some_iff.1 (List.getElem?_map.symm.trans hi)
  obtain rfl : found = name := hfound
  have hkind : body.kind? = some .umlClass := by
    obtain ⟨item, -, hdeclares⟩ := List.mem_flatMap.1 (List.mem_of_getElem? hbody)
    cases item with
    | ofClass _ _ =>
        obtain ⟨-, rfl⟩ := Prod.mk.inj (List.mem_singleton.1 hdeclares)
        rfl
    | ofLink _ => cases hdeclares
  rw [Writing.standsFor, hid]
  exact Progress.resolve? h hid hbody hkind

/-- No other name stands for anything. -/
theorem resolve?_eq_none (h : HasRead project diagrams items r) {name : String}
    (hname : name ∉ classNames items) : r.resolve? name = none := by
  have hnone : r.aliases.get? name = none := by
    rw [Progress.aliases_eq h, ← Option.not_isSome_iff_eq_none, isSome_get?_nameTable]
    exact hname
  rw [Reader.resolve?, hnone]
  rfl

/-- The lines of one item. -/
theorem readItem (h : HasRead project diagrams above r) {item : Item} (hplain : item.Plain)
    (hanchored : item.Anchored (classNames above)) (hread : ¬ item.Misread)
    {lines : List Text.Line}
    (hlines : lines.map Text.Line.text = Writing.trimmedLines item.lines) :
    HasRead project diagrams (above ++ [item]) (r.readLines lines) := by
  rw [HasRead, List.flatMap_append, Writing.recorded_append]
  cases item with
  | ofClass name features =>
      simpa [Item.declares, recorded, Item.records] using
        Progress.classLines h hplain.1 hplain.2 hlines
  | ofLink link =>
      obtain ⟨line, rfl, hline⟩ := List.map_eq_singleton_iff.1 hlines
      have htext : line.text = link.text := hline.trans (Writing.Link.Plain.trim_line hplain)
      have hlinked := Progress.associationText h ((Writing.shape_text_iff hplain).2 hread)
        (h.resolve? hanchored.1) (h.resolve? hanchored.2) hplain.trimmed hplain.no_include
        hplain.no_extend htext
      simpa [Item.declares, recorded, Item.records, Writing.Link.blueprint] using hlinked

/-- The lines of items, one after the other. -/
theorem readItems (h : HasRead project diagrams above r) (hplain : ∀ item ∈ items, item.Plain)
    (hanchored : Writing.Anchored (classNames above) items) (hread : ∀ item ∈ items, ¬ item.Misread)
    {lines : List Text.Line}
    (hlines : lines.map Text.Line.text = Writing.trimmedLines (items.flatMap Item.lines)) :
    HasRead project diagrams (above ++ items) (r.readLines lines) := by
  induction items generalizing above r lines with
  | nil =>
      obtain rfl := List.map_eq_nil_iff.1 hlines
      rw [List.append_nil]
      exact h
  | cons item rest ih =>
      rw [List.flatMap_cons, Writing.trimmedLines_append] at hlines
      obtain ⟨first, others, rfl, hfirst, hothers⟩ := List.map_eq_append_iff.1 hlines
      obtain ⟨hplain, hplains⟩ := List.forall_mem_cons.1 hplain
      obtain ⟨hread, hreads⟩ := List.forall_mem_cons.1 hread
      have hrest := ih (h.readItem hplain hanchored.1 hread hfirst) hplains
        (Writing.classNames_append _ _ ▸ hanchored.2) hreads hothers
      rw [List.append_assoc] at hrest
      rw [readLines_append]
      exact hrest

/-- **Reading the text of items** into a workspace of one project. -/
theorem readText {store : Workspace} (hstore : store.contents = [(project, .project)])
    (hplain : ∀ item ∈ items, item.Plain) (hanchored : Writing.Anchored [] items)
    (hread : ∀ item ∈ items, ¬ item.Misread) :
    HasRead project store.diagrams items
      (Reader.readText store Workspace.root (Writing.itemText items).toList) := by
  obtain ⟨body, hbody, htext⟩ := readText_itemText hplain store Workspace.root
  have hall := (start hstore).readItems hplain hanchored hread hbody
  rw [List.nil_append] at hall
  rw [htext]
  exact Progress.finish hall _

end HasRead

end Reader

end UmlText
