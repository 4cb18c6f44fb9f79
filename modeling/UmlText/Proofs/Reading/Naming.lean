import UmlText.Proofs.Reading.Stepping
import UmlText.Proofs.Store.Backed
import UmlText.Proofs.Tables
import UmlText.Reading.Parsed

/-!
# UmlText.Proofs.Reading.Naming

**Names and the elements they stand for.** A header whose element is created enters its names in the
table of names, and nothing else does (`Reader.aliases_step`). A name that is entered again stands
for the later element, at the place where it was entered first.

The declared elements of a text are told from this table. So an element is among them exactly as
long as one of its names stands for it, and they are in the order of the names, not of the
declarations (`uniqueElements_parse`). Two classes of one name in two packages are declared and
created, but only the second of them is listed.
-/

namespace UmlText

universe u

open BackedStore (workspace)

/-- An element that was created for a header, and the names it was entered under, in order. -/
structure Declaration where
  element : ElementId
  names : List String
deriving DecidableEq, Repr

namespace Declaration

/-- What a declaration enters in the table of names. -/
def entries (d : Declaration) : List (String × ElementId) :=
  d.names.map fun name => (name, d.element)

/-- The element that a name stands for after declarations: that of the last one with this name. -/
def standsFor? (name : String) (declared : List Declaration) : Option ElementId :=
  OrderedMap.last? name (declared.flatMap entries)

theorem mem_entries {d : Declaration} {entry : String × ElementId} :
    entry ∈ d.entries ↔ entry.1 ∈ d.names ∧ entry.2 = d.element := by
  obtain ⟨name, element⟩ := entry
  simp [entries, eq_comm]

theorem map_fst_entries (d : Declaration) : d.entries.map Prod.fst = d.names := by
  rw [entries, List.map_map]
  exact List.map_id _

theorem last?_entries (d : Declaration) (name : String) :
    OrderedMap.last? name d.entries = if name ∈ d.names then some d.element else none := by
  unfold entries
  induction d.names with
  | nil => rfl
  | cons first rest ih =>
      rw [List.map_cons, OrderedMap.last?, ih]
      by_cases hfirst : first = name
      · subst hfirst
        by_cases hrest : first ∈ rest <;> simp [hrest]
      · simp [hfirst, Ne.symm hfirst]

theorem standsFor?_cons (name : String) (d : Declaration) (rest : List Declaration) :
    standsFor? name (d :: rest)
      = (standsFor? name rest).or (if name ∈ d.names then some d.element else none) := by
  unfold standsFor?
  rw [List.flatMap_cons, OrderedMap.last?_append, last?_entries]

theorem standsFor?_eq_none_iff {name : String} {declared : List Declaration} :
    standsFor? name declared = none ↔ ∀ d ∈ declared, name ∉ d.names := by
  induction declared with
  | nil => simp [standsFor?, OrderedMap.last?]
  | cons d rest ih => simp [standsFor?_cons, ih, and_comm]

/-- A name stands for an element that was declared with it, if no later declaration has it. -/
theorem standsFor?_eq_some_iff {name : String} {declared : List Declaration} {e : ElementId} :
    standsFor? name declared = some e ↔
      ∃ before d after, declared = before ++ d :: after ∧ d.element = e ∧ name ∈ d.names ∧
        ∀ later ∈ after, name ∉ later.names := by
  constructor
  · intro h
    induction declared with
    | nil => cases h
    | cons d rest ih =>
        rw [standsFor?_cons, Option.or_eq_some_iff] at h
        rcases h with h | ⟨hnone, h⟩
        · obtain ⟨before, d', after, rfl, hd'⟩ := ih h
          exact ⟨d :: before, d', after, rfl, hd'⟩
        · split at h
          · next hname =>
              exact ⟨[], d, rest, rfl, Option.some.inj h, hname, standsFor?_eq_none_iff.1 hnone⟩
          · cases h
  · rintro ⟨before, d, after, rfl, rfl, hname, hafter⟩
    induction before with
    | nil =>
        rw [List.nil_append, standsFor?_cons, standsFor?_eq_none_iff.2 hafter, if_pos hname]
        rfl
    | cons first before ih =>
        rw [List.cons_append, standsFor?_cons, ih]
        rfl

end Declaration

namespace LineShape

/-- The element that a header asks for. -/
def request? (parent : ElementId) : LineShape → Option NewElement
  | .package header => some { kind := .package, parent, name := header.name }
  | .entity header => some
      { kind := header.kind, parent, name := header.name, isAbstract := header.isAbstract }
  | _ => none

/-- The names of a header in the order in which they are entered: the alias of a package or else its
name, the alias of an entity if it has one and then its name. -/
def names : LineShape → List String
  | .package header => [header.aliasName.getD header.name]
  | .entity header => header.aliasName.toList ++ [header.name]
  | _ => []

theorem names_ne_nil {parent : ElementId} {shape : LineShape} {request : NewElement}
    (h : shape.request? parent = some request) : shape.names ≠ [] := by
  cases shape <;> simp_all [request?, names]

end LineShape

namespace Reader

variable {σ : Type u} [ModelStore σ]

/-! ### Declarations -/

/-- The declaration on a line: a header whose element the store creates. -/
def declaration? (r : Reader σ) (line : Text.Line) : Option Declaration := do
  let shape := LineShape.of r.body.isSome line.text
  let request ← shape.request? r.parent
  let element ← (ModelStore.createElement r.store request).1.toOption
  return { element, names := shape.names }

/-- The declarations of lines, in order. -/
def declarations (r : Reader σ) : List Text.Line → List Declaration
  | [] => []
  | line :: rest => (r.declaration? line).toList ++ (r.step line).declarations rest

/-- Every declaration has a name. -/
theorem names_ne_nil_of_mem_declarations {r : Reader σ} {lines : List Text.Line} {d : Declaration}
    (h : d ∈ r.declarations lines) : d.names ≠ [] := by
  induction lines generalizing r with
  | nil => cases h
  | cons line rest ih =>
      rcases List.mem_append.1 h with h | h
      · have h := Option.mem_toList.1 h
        simp only [declaration?, Option.bind_eq_bind, Option.bind_eq_some_iff] at h
        obtain ⟨request, hrequest, element, -, hd⟩ := h
        obtain rfl := Option.some.inj hd
        exact LineShape.names_ne_nil hrequest
      · exact ih h

/-! ### The table of names -/

/-- A header leaves the store as its request does, and enters its names if the element is created. -/
theorem step_of_request {r : Reader σ} {line : Text.Line} {request : NewElement}
    (h : (LineShape.of r.body.isSome line.text).request? r.parent = some request) :
    (r.step line).store = (ModelStore.createElement r.store request).2 ∧
      (r.step line).aliases
        = r.aliases.fill ((r.declaration? line).toList.flatMap Declaration.entries) := by
  unfold step declaration?
  cases hshape : LineShape.of r.body.isSome line.text with
  | package header =>
      rw [hshape] at h
      obtain rfl := Option.some.inj h
      simp only [LineShape.request?, LineShape.names, Option.bind_eq_bind, Option.bind_some]
      rcases r.openPackage_cases line.span header with
        ⟨error, store, hc, hread⟩ | ⟨id, store, hc, hread⟩ <;> rw [hread, hc] <;> exact ⟨rfl, rfl⟩
  | entity header =>
      rw [hshape] at h
      obtain rfl := Option.some.inj h
      simp only [LineShape.request?, LineShape.names, Option.bind_eq_bind, Option.bind_some]
      rcases r.openEntity_cases line.span header with
        ⟨error, store, hc, hread⟩ | ⟨id, store, hc, hread⟩ <;> rw [hread, hc]
      · exact ⟨rfl, rfl⟩
      · exact ⟨rfl, by cases header.aliasName <;> rfl⟩
  | ignored | member | close | relationship | unknown =>
      rw [hshape] at h
      cases h

/-- A member line asks the store for a member at most, the one that it spells. -/
theorem addMember_effect (r : Reader σ) (span : Text.Span) (line : List Char) :
    (r.addMember span line).aliases = r.aliases ∧
      ((r.addMember span line).store = r.store ∨
        ∃ id kind member, Line.member? kind line = some member ∧
          (r.addMember span line).store = (ModelStore.addMember r.store id member).2) := by
  rcases r.addMember_cases span line with ⟨-, h⟩ | ⟨id, kind, -, -, h⟩ |
    ⟨id, kind, member, error, store, -, hline, hm, h⟩ |
    ⟨id, kind, member, store, -, hline, hm, h⟩ <;> rw [h]
  · exact ⟨rfl, .inl rfl⟩
  · exact ⟨rfl, .inl rfl⟩
  · exact ⟨rfl, .inr ⟨id, kind, member, hline, by rw [hm]; rfl⟩⟩
  · exact ⟨rfl, .inr ⟨id, kind, member, hline, by rw [hm]⟩⟩

/-- A line that is no header enters no name and creates no element. -/
theorem step_of_no_request {r : Reader σ} {line : Text.Line}
    (h : (LineShape.of r.body.isSome line.text).request? r.parent = none) :
    r.declaration? line = none ∧ (r.step line).aliases = r.aliases ∧
      ((r.step line).store = r.store ∨
        ∃ id kind member, Line.member? kind line.text = some member ∧
          (r.step line).store = (ModelStore.addMember r.store id member).2) := by
  refine ⟨by simp [declaration?, h], ?_⟩
  unfold step
  cases hshape : LineShape.of r.body.isSome line.text with
  | ignored | unknown => exact ⟨rfl, .inl rfl⟩
  | member => exact r.addMember_effect _ _
  | close =>
      rcases r.closeBlock_cases line.span with ⟨-, hclose⟩ | ⟨-, body, containers, hclose, -⟩ <;>
        simp [hclose, report]
  | relationship parts =>
      rcases r.relate_cases line.span parts with
        ⟨name, -, -, hr⟩ | ⟨left, right, -, -, -, hr⟩ | ⟨left, right, blueprint, -, -, -, hr⟩ <;>
        simp [hr, report]
  | package | entity =>
      rw [hshape] at h
      cases h

/-- A line enters the names of its declaration, if it has one. -/
theorem aliases_step (r : Reader σ) (line : Text.Line) :
    (r.step line).aliases
      = r.aliases.fill ((r.declaration? line).toList.flatMap Declaration.entries) := by
  cases hrequest : (LineShape.of r.body.isSome line.text).request? r.parent with
  | some request => exact (step_of_request hrequest).2
  | none =>
      obtain ⟨hnone, haliases, -⟩ := step_of_no_request hrequest
      rw [hnone, haliases]
      rfl

/-- After a line, a name stands for what one stood for before, or for what the line declares. -/
theorem mem_values_step {r : Reader σ} {line : Text.Line} {id : ElementId}
    (h : id ∈ (r.step line).aliases.values) :
    id ∈ r.aliases.values ∨ ∃ d, r.declaration? line = some d ∧ d.element = id := by
  rw [aliases_step] at h
  refine (OrderedMap.mem_values_fill h).imp_right fun hentered => ?_
  obtain ⟨entry, hentry, rfl⟩ := List.mem_map.1 hentered
  obtain ⟨d, hd, hentry⟩ := List.mem_flatMap.1 hentry
  exact ⟨d, Option.mem_toList.1 hd, (Declaration.mem_entries.1 hentry).2.symm⟩

/-- Lines enter the names of their declarations, one after the other. -/
theorem aliases_readLines (r : Reader σ) (lines : List Text.Line) :
    (r.readLines lines).aliases
      = r.aliases.fill ((r.declarations lines).flatMap Declaration.entries) := by
  induction lines generalizing r with
  | nil => rfl
  | cons line rest ih =>
      rw [readLines_cons, ih, aliases_step, declarations, List.flatMap_append,
        OrderedMap.fill_append]

/-! ### New elements -/

section New

variable [ViewStore σ] [BackedStore σ]

/-- What a line does to the workspace: nothing, or it pushes the element that it declares, or it
puts a member into an element that is there. -/
theorem workspace_step_cases (r : Reader σ) (line : Text.Line) :
    (r.declaration? line = none ∧ workspace (r.step line).store = workspace r.store) ∨
      (∃ request, (LineShape.of r.body.isSome line.text).request? r.parent = some request ∧
        (ModelStore.createElement r.store request).1
          = .ok ⟨(workspace r.store).elements.length⟩ ∧
        workspace (r.step line).store = ((workspace r.store).pushElement request.parent
          request.name (.empty request.kind request.isAbstract)).2) ∨
      r.declaration? line = none ∧ ∃ id member element body,
        (workspace r.store).element? id = some element ∧
        element.body.withMember? member = some body ∧
        workspace (r.step line).store
          = (workspace r.store).updateElement id fun e => { e with body } := by
  cases hrequest : (LineShape.of r.body.isSome line.text).request? r.parent with
  | some request =>
      rw [(step_of_request hrequest).1]
      rcases BackedStore.createElement_cases r.store request with
        ⟨error, store, hc, hw⟩ | ⟨owner, store, -, -, hc, hw⟩
      · refine .inl ⟨by simp [declaration?, hrequest, hc, Except.toOption], ?_⟩
        rw [hc, hw]
      · refine .inr (.inl ⟨request, rfl, ?_, ?_⟩) <;> simp only [hc, hw]
  | none =>
      obtain ⟨hnone, -, hstore⟩ := step_of_no_request hrequest
      rcases hstore with hstore | ⟨id, -, member, -, hstore⟩
      · exact .inl ⟨hnone, by rw [hstore]⟩
      · rw [hstore]
        rcases BackedStore.addMember_cases r.store id member with
          ⟨error, store, hm, hw⟩ | ⟨element, body, store, helement, hbody, hm, hw⟩
        · exact .inl ⟨hnone, by rw [hm, hw]⟩
        · exact .inr (.inr ⟨hnone, id, member, element, body, helement, hbody, by rw [hm, hw]⟩)

/-- A line sends one request at most. -/
theorem reachable_step {r : Reader σ} (h : (workspace r.store).Reachable) (line : Text.Line) :
    (workspace (r.step line).store).Reachable := by
  cases hrequest : (LineShape.of r.body.isSome line.text).request? r.parent with
  | some request =>
      rw [(step_of_request hrequest).1]
      exact (BackedStore.createElement_answers r.store request).keeps h
        (h.step (.createElement request))
  | none =>
      obtain ⟨-, -, hstore | ⟨id, -, member, -, hstore⟩⟩ := step_of_no_request hrequest
      · exact hstore ▸ h
      · rw [hstore]
        exact (BackedStore.addMember_answers r.store id member).keeps h (h.step (.addMember id member))

/-- Elements in the workspace of a reader. -/
def elementCount (r : Reader σ) : Nat := (workspace r.store).elements.length

/-- A line creates the element of its declaration under the next number, and nothing else. -/
theorem elementCount_step (r : Reader σ) (line : Text.Line) :
    (r.step line).elementCount = r.elementCount + (r.declaration? line).toList.length ∧
      ∀ d ∈ r.declaration? line, d.element = ⟨r.elementCount⟩ := by
  unfold elementCount
  rcases r.workspace_step_cases line with
    ⟨hnone, hw⟩ | ⟨request, hrequest, hc, hw⟩ | ⟨hnone, id, member, element, body, -, -, hw⟩
  · simp [hnone, hw]
  · simp [declaration?, hrequest, hc, hw, Except.toOption, Workspace.pushElement]
  · simp [hnone, hw, Workspace.updateElement]

/-- A line takes no element its kind. -/
theorem kind?_step (r : Reader σ) (line : Text.Line) {id : ElementId}
    (h : ((workspace r.store).kind? id).isSome) :
    (workspace (r.step line).store).kind? id = (workspace r.store).kind? id := by
  rcases r.workspace_step_cases line with
    ⟨-, hw⟩ | ⟨request, -, -, hw⟩ | ⟨-, owner, member, element, body, helement, hbody, hw⟩
  · rw [hw]
  · rw [hw, Workspace.kind?_pushElement h]
  · rw [hw, Workspace.kind?_updateElement_body helement hbody]

/-- The element of a declaration has a kind. -/
theorem kind?_declaration {r : Reader σ} {line : Text.Line} {d : Declaration}
    (h : r.declaration? line = some d) :
    ((workspace (r.step line).store).kind? d.element).isSome := by
  rcases r.workspace_step_cases line with ⟨hnone, -⟩ | ⟨request, -, -, hw⟩ | ⟨hnone, -⟩
  · cases hnone.symm.trans h
  · rw [(r.elementCount_step line).2 d h, elementCount, hw, Workspace.kind?_pushElement_self,
      Body.kind?_empty]
    rfl
  · cases hnone.symm.trans h

/-- The elements of declarations are the new elements, in the order in which they were made. -/
theorem elements_declarations (r : Reader σ) (lines : List Text.Line) :
    (r.readLines lines).elementCount = r.elementCount + (r.declarations lines).length ∧
      (r.declarations lines).map Declaration.element
        = (List.range' r.elementCount (r.declarations lines).length).map ElementId.mk := by
  induction lines generalizing r with
  | nil => exact ⟨rfl, rfl⟩
  | cons line rest ih =>
      obtain ⟨hcount, helement⟩ := r.elementCount_step line
      obtain ⟨hcounts, helements⟩ := ih (r.step line)
      have hfirst : (r.declaration? line).toList.map Declaration.element
          = (List.range' r.elementCount (r.declaration? line).toList.length).map ElementId.mk := by
        cases hd : r.declaration? line with
        | none => rfl
        | some d => simp [helement d hd]
      rw [readLines_cons, hcounts, hcount, declarations, List.length_append, Nat.add_assoc,
        List.map_append, hfirst, helements, hcount, ← List.map_append, List.range'_append_1]
      exact ⟨rfl, rfl⟩

end New

end Reader

/-! ### The declared elements -/

/-- What the table of names tells of the declarations of a text. -/
structure Parsed.Lists (p : Parsed) (declared : List Declaration) : Prop where
  /-- A name is where it was entered first, -/
  keys_eq : p.aliases.keys = (declared.flatMap Declaration.names).eraseDups
  /-- and stands for the element it was entered for last. -/
  element?_eq : ∀ name, p.element? name = Declaration.standsFor? name declared
  nodup : p.uniqueElements.Nodup
  /-- Only declared elements are listed: those declared with a name that no later declaration has. -/
  mem_iff : ∀ e, e ∈ p.uniqueElements ↔
    ∃ before d after, declared = before ++ d :: after ∧ d.element = e ∧
      ∃ name ∈ d.names, ∀ later ∈ after, name ∉ later.names
  /-- All declared elements are listed in the order of their declarations exactly if some name
  stands for each, and the first such names are in that order. -/
  eq_iff : p.uniqueElements = (declared.map Declaration.element).eraseDups ↔
    (∀ d ∈ declared, ∃ name, p.element? name = some d.element) ∧
      (declared.map Declaration.element).eraseDups.Pairwise fun a b =>
        p.aliases.values.idxOf a < p.aliases.values.idxOf b
  /-- So they are if no name is given to two elements. -/
  eq_of_unambiguous :
    (∀ d ∈ declared, ∀ d' ∈ declared, ∀ name ∈ d.names, name ∈ d'.names → d.element = d'.element) →
      p.uniqueElements = (declared.map Declaration.element).eraseDups

namespace Declaration

/-- Declarations with names enter their elements, each as often as it has names. -/
theorem eraseDups_entries {declared : List Declaration} (h : ∀ d ∈ declared, d.names ≠ []) :
    ((declared.flatMap entries).map Prod.snd).eraseDups
      = (declared.map Declaration.element).eraseDups := by
  induction declared using List.reverseRecOn with
  | nil => rfl
  | append_singleton declared d ih =>
      have ih := ih fun d hd => h d (List.mem_append_left _ hd)
      have hmem : d.element ∈ (declared.flatMap entries).map Prod.snd ↔
          d.element ∈ declared.map Declaration.element := by
        rw [← List.mem_eraseDups, ih, List.mem_eraseDups]
      have hsnd : (entries d).map Prod.snd = d.names.map fun _ => d.element := by
        rw [entries, List.map_map]
        rfl
      rw [List.flatMap_append, List.map_append, List.flatMap_singleton, hsnd,
        eraseDups_append_map_const _ _ (h d (by simp)), eraseDups_concat, List.map_append,
        List.map_singleton, eraseDups_concat, ih]
      simp only [hmem]

end Declaration

namespace Parsed

section Entered

variable {p : Parsed} {declared : List Declaration}
  (h : p.aliases = ({} : OrderedMap String ElementId).fill
    (declared.flatMap Declaration.entries))

include h

theorem keys_aliases_eq :
    p.aliases.keys = (declared.flatMap Declaration.names).eraseDups := by
  rw [h, OrderedMap.keys_fill, List.map_flatMap]
  simp only [Declaration.map_fst_entries]

theorem nodup_keys_aliases : p.aliases.keys.Nodup :=
  keys_aliases_eq h ▸ nodup_eraseDups _

theorem element?_eq_standsFor? (name : String) :
    p.element? name = Declaration.standsFor? name declared := by
  rw [element?, h, OrderedMap.get?_fill, OrderedMap.get?_empty, Option.or_none]
  rfl

theorem mem_values_aliases {e : ElementId} :
    e ∈ p.aliases.values ↔ ∃ name, p.element? name = some e :=
  OrderedMap.mem_values_iff (nodup_keys_aliases h)

/-- Listed is what was declared with a name that no later declaration has. -/
theorem mem_uniqueElements_iff {e : ElementId} : e ∈ p.uniqueElements ↔
    ∃ before d after, declared = before ++ d :: after ∧ d.element = e ∧
      ∃ name ∈ d.names, ∀ later ∈ after, name ∉ later.names := by
  rw [uniqueElements, List.mem_eraseDups, mem_values_aliases h]
  simp only [element?_eq_standsFor? h, Declaration.standsFor?_eq_some_iff]
  constructor
  · rintro ⟨name, before, d, after, hsplit, hd, hname, hafter⟩
    exact ⟨before, d, after, hsplit, hd, name, hname, hafter⟩
  · rintro ⟨before, d, after, hsplit, hd, name, hname, hafter⟩
    exact ⟨name, before, d, after, hsplit, hd, hname, hafter⟩

/-- If no name is given to two elements, all entries that were made still stand. -/
theorem element?_of_unambiguous
    (hunambiguous : ∀ d ∈ declared, ∀ d' ∈ declared, ∀ name ∈ d.names, name ∈ d'.names →
      d.element = d'.element) {entry : String × ElementId}
    (hentry : entry ∈ declared.flatMap Declaration.entries) :
    p.element? entry.1 = some entry.2 := by
  obtain ⟨d, hd, hentry⟩ := List.mem_flatMap.1 hentry
  obtain ⟨hname, helement⟩ := Declaration.mem_entries.1 hentry
  rw [element?_eq_standsFor? h, helement]
  cases hstands : Declaration.standsFor? entry.1 declared with
  | none => exact absurd hname (Declaration.standsFor?_eq_none_iff.1 hstands d hd)
  | some e =>
      obtain ⟨before, d', after, hsplit, rfl, hname', -⟩ :=
        Declaration.standsFor?_eq_some_iff.1 hstands
      have hd' : d' ∈ declared := by simp [hsplit]
      exact congrArg some (hunambiguous d' hd' d hd entry.1 hname' hname)

/-- A table that declarations are entered in lists what they declare. -/
theorem lists_of_aliases_eq (hnames : ∀ d ∈ declared, d.names ≠ []) : p.Lists declared := by
  refine ⟨keys_aliases_eq h, element?_eq_standsFor? h, nodup_eraseDups _,
    fun e => mem_uniqueElements_iff h, ?_, ?_⟩
  · rw [uniqueElements, eraseDups_eq_iff]
    refine and_congr_left' ⟨fun hall d hd => ?_, fun hall e => ⟨fun he => ?_, fun he => ?_⟩⟩
    · exact (mem_values_aliases h).1 ((hall _).2 (List.mem_map_of_mem hd))
    · obtain ⟨before, d, after, rfl, rfl, -⟩ :=
        (mem_uniqueElements_iff h).1 (List.mem_eraseDups.2 he)
      simp
    · obtain ⟨d, hd, rfl⟩ := List.mem_map.1 he
      exact (mem_values_aliases h).2 (hall d hd)
  · intro hunambiguous
    -- The values are what was entered, because it still stands.
    calc p.uniqueElements
        = ((declared.flatMap Declaration.entries).map Prod.fst |>.eraseDups.map fun name =>
            (p.element? name).getD default).eraseDups := by
          rw [uniqueElements, OrderedMap.values_eq_map (nodup_keys_aliases h), h,
            OrderedMap.keys_fill, ← h]
          rfl
      _ = ((declared.flatMap Declaration.entries).map Prod.snd).eraseDups := by
          rw [eraseDups_map_eraseDups, List.map_map]
          refine congrArg List.eraseDups (List.map_congr_left fun entry hentry => ?_)
          rw [Function.comp_apply, element?_of_unambiguous h hunambiguous hentry, Option.getD_some]
      _ = (declared.map Declaration.element).eraseDups := Declaration.eraseDups_entries hnames

end Entered

end Parsed

end UmlText
