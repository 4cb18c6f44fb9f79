import UmlText.Proofs.Reading.Direction
import UmlText.Proofs.Reading.Interning
import UmlText.Proofs.Reading.Naming
import UmlText.Proofs.Store.Growth

/-!
# UmlText.Proofs.Reading.Resolving

**The operands of a relationship are the last elements that were declared above it under their
names.** The table of names has, at every line, what the declarations above that line entered, so a
name is resolved exactly if one of them has it, and to the element of the last one that has. What
an interner knows of other texts does not matter, and a blueprint that is recorded stays as it is,
whatever is declared under its names later (`parseInterned_resolves`).
-/

namespace UmlText

universe u

open BackedStore (workspace)

/-- A blueprint between two elements, in either direction. -/
def Blueprint.Joins (b : Blueprint) (left right : ElementId) : Prop :=
  b.source = left ∧ b.target = right ∨ b.source = right ∧ b.target = left

namespace Reader

theorem joins_of_blueprint? {parts : Line.RelationshipLine} {left right : ElementId × ElementKind}
    {b : Blueprint} (h : blueprint? parts left right = some b) : b.Joins left.1 right.1 := by
  obtain ⟨meaning, -, rfl⟩ := Option.map_eq_some_iff.1 h
  by_cases hswapped : meaning.swapped <;> simp [Blueprint.Joins, hswapped]

variable {σ : Type u} [ModelStore σ]

/-! ### The declarations above a line -/

theorem declarations_append (r : Reader σ) (above below : List Text.Line) :
    r.declarations (above ++ below)
      = r.declarations above ++ (r.readLines above).declarations below := by
  induction above generalizing r with
  | nil => rfl
  | cons line rest ih =>
      rw [List.cons_append, declarations, declarations, ih, List.append_assoc, readLines_cons]

/-- A reader that starts with an empty table finds a name where it was declared last. -/
theorem get?_aliases_readLines {r : Reader σ} (h : r.aliases = {}) (lines : List Text.Line)
    (name : String) :
    (r.readLines lines).aliases.get? name
      = Declaration.standsFor? name (r.declarations lines) := by
  rw [aliases_readLines, OrderedMap.get?_fill, h, OrderedMap.get?_empty, Option.or_none]
  rfl

/-! ### Recorded blueprints -/

/-- What is recorded stays as it is. -/
theorem prefix_blueprints_readLines (r : Reader σ) (lines : List Text.Line) :
    r.blueprints <+: (r.readLines lines).blueprints :=
  ⟨_, (r.blueprints_readLines lines).symm⟩

/-! ### Declared elements -/

section Backed

variable [ViewStore σ] [BackedStore σ]

/-- Declared elements are new. -/
theorem isNew_of_mem_declarations {r : Reader σ} {lines : List Text.Line} {d : Declaration}
    (h : d ∈ r.declarations lines) : (workspace r.store).IsNew d.element := by
  have hmem := List.mem_map_of_mem (f := Declaration.element) h
  rw [(r.elements_declarations lines).2] at hmem
  obtain ⟨i, hi, hid⟩ := List.mem_map.1 hmem
  rw [← hid]
  exact (List.mem_range'_1.1 hi).1

/-- Lines keep the kinds that are there, and their declarations get one. -/
theorem kind?_readLines (r : Reader σ) (lines : List Text.Line) :
    (∀ id, ((workspace r.store).kind? id).isSome →
        ((workspace (r.readLines lines).store).kind? id).isSome) ∧
      ∀ d ∈ r.declarations lines,
        ((workspace (r.readLines lines).store).kind? d.element).isSome := by
  induction lines generalizing r with
  | nil => exact ⟨fun _ h => h, fun d hd => by cases hd⟩
  | cons line rest ih =>
      obtain ⟨hkept, hdeclared⟩ := ih (r.step line)
      refine ⟨fun id h => hkept id (by rwa [r.kind?_step line h]), fun d hd => ?_⟩
      rcases List.mem_append.1 hd with hd | hd
      · exact hkept _ (kind?_declaration (Option.mem_toList.1 hd))
      · exact hdeclared d hd

/-- A name is resolved to the element that was declared last under it. -/
theorem map_fst_resolve? {r : Reader σ} (h : r.aliases = {}) (lines : List Text.Line)
    (name : String) :
    ((r.readLines lines).resolve? name).map Prod.fst
      = Declaration.standsFor? name (r.declarations lines) := by
  rw [resolve?, get?_aliases_readLines h]
  cases hstands : Declaration.standsFor? name (r.declarations lines) with
  | none => rfl
  | some element =>
      obtain ⟨before, d, after, hsplit, rfl, -⟩ := Declaration.standsFor?_eq_some_iff.1 hstands
      have hkind := (r.kind?_readLines lines).2 d (by simp [hsplit])
      obtain ⟨kind, hkind⟩ := Option.isSome_iff_exists.1 hkind
      simp [hkind]

/-- What a name stands for somewhere in a text was created while it was read. -/
theorem created_of_standsFor? (r : Reader σ) {above : List Text.Line} {name : String}
    {e : ElementId} (h : Declaration.standsFor? name (r.declarations above) = some e)
    (below : List Text.Line) :
    (workspace r.store).IsNew e ∧
      ((workspace (r.readLines (above ++ below)).store).kind? e).isSome := by
  obtain ⟨before, d, after, hsplit, rfl, -⟩ := Declaration.standsFor?_eq_some_iff.1 h
  have hd : d ∈ r.declarations (above ++ below) := by
    rw [declarations_append, hsplit]
    simp
  exact ⟨isNew_of_mem_declarations hd, (r.kind?_readLines _).2 d hd⟩

/-- A blueprint of lines is that of one of them, and joins what its names stand for there. -/
theorem exists_line_of_mem_blueprints {r : Reader σ} (haliases : r.aliases = {})
    (hblueprints : r.blueprints = []) {lines : List Text.Line} {b : Blueprint}
    (h : b ∈ (r.readLines lines).blueprints) :
    ∃ above line below parts left right, lines = above ++ line :: below ∧
      LineShape.of (r.readLines above).body.isSome line.text = .relationship parts ∧
      Declaration.standsFor? parts.left (r.declarations above) = some left ∧
      Declaration.standsFor? parts.right (r.declarations above) = some right ∧
      b.Joins left right := by
  rw [blueprints_readLines, hblueprints, List.nil_append] at h
  obtain ⟨made, hmade, rfl⟩ := List.mem_map.1 h
  obtain ⟨above, line, below, hlines, hrecorded⟩ := exists_recording?_of_mem_recordings hmade
  obtain ⟨hshape, hleft, hright, hb⟩ := recording?_eq_some hrecorded
  have hstands := map_fst_resolve? haliases above
  refine ⟨above, line, below, made.parts, made.left.1, made.right.1, hlines, hshape, ?_, ?_,
    joins_of_blueprint? hb⟩
  · rw [← hstands, hleft]
    rfl
  · rw [← hstands, hright]
    rfl

end Backed

end Reader

/-! ### With interned names -/

namespace InternedReader

variable {σ : Type u} {ι κ : Type} [ModelStore σ] [Interner ι κ] [DecidableEq κ]

/-- Whether both operands of a relationship line are resolved. -/
def Passes (r : InternedReader σ ι κ) (parts : Line.RelationshipLine) : Prop :=
  (r.resolve? parts.left).isSome ∧ (r.resolve? parts.right).isSome

/-- How a reader takes a relationship line below declarations. -/
structure Resolves (r : InternedReader σ ι κ) (declared : List Declaration) (line : Text.Line)
    (parts : Line.RelationshipLine) : Prop where
  /-- A name is resolved to the element of the last declaration with it, -/
  resolve?_eq : ∀ name, (r.resolve? name).map Prod.fst = Declaration.standsFor? name declared
  /-- so a line passes if both names were declared above. -/
  passes_iff : r.Passes parts ↔
    (∃ d ∈ declared, parts.left ∈ d.names) ∧ ∃ d ∈ declared, parts.right ∈ d.names
  /-- Then it is a blueprint between the elements they were declared for last, if the arrow means
  something. -/
  passed : r.Passes parts → ∃ left right,
    Declaration.standsFor? parts.left declared = some left ∧
      Declaration.standsFor? parts.right declared = some right ∧
      (r.step line = r.report line.span (.unsupportedArrow parts.arrow) ∨
        ∃ b, b.Joins left right ∧ r.step line =
          { r with reader := { r.reader with blueprints := r.reader.blueprints ++ [b] } })
  /-- Otherwise it is reported with a name that was not declared. -/
  refused : ¬ r.Passes parts → ∃ name, (name = parts.left ∨ name = parts.right) ∧
    (∀ d ∈ declared, name ∉ d.names) ∧
    r.step line = r.report line.span (.unresolvedEndpoint name)

variable {r : InternedReader σ ι κ}

theorem step_relationship {line : Text.Line} {parts : Line.RelationshipLine}
    (h : LineShape.of r.reader.body.isSome line.text = .relationship parts) :
    r.step line = r.relate line.span parts := by
  rw [step, h]

/-- Everything about a relationship line follows from what its names are resolved to. -/
theorem resolves_of_resolve?_eq {declared : List Declaration} {line : Text.Line}
    {parts : Line.RelationshipLine}
    (hline : LineShape.of r.reader.body.isSome line.text = .relationship parts)
    (h : ∀ name, (r.resolve? name).map Prod.fst = Declaration.standsFor? name declared) :
    r.Resolves declared line parts := by
  have hnone : ∀ name, r.resolve? name = none ↔ ∀ d ∈ declared, name ∉ d.names := by
    intro name
    rw [← Declaration.standsFor?_eq_none_iff, ← h, Option.map_eq_none_iff]
  have hsome : ∀ name, (r.resolve? name).isSome ↔ ∃ d ∈ declared, name ∈ d.names := by
    intro name
    rw [← Option.ne_none_iff_isSome, Ne, hnone]
    simp
  refine ⟨h, and_congr (hsome _) (hsome _), ?_, ?_⟩
  · rintro ⟨hleft, hright⟩
    obtain ⟨left, hleft⟩ := Option.isSome_iff_exists.1 hleft
    obtain ⟨right, hright⟩ := Option.isSome_iff_exists.1 hright
    refine ⟨left.1, right.1, by rw [← h, hleft]; rfl, by rw [← h, hright]; rfl, ?_⟩
    cases hb : Reader.blueprint? parts left right with
    | none => exact .inl (by simp only [step_relationship hline, relate, hleft, hright, hb])
    | some b =>
        exact .inr ⟨b, Reader.joins_of_blueprint? hb, by
          simp only [step_relationship hline, relate, hleft, hright, hb]⟩
  · intro hfails
    rw [step_relationship hline, relate]
    cases hleft : r.resolve? parts.left with
    | none => exact ⟨parts.left, .inl rfl, (hnone _).1 hleft, rfl⟩
    | some left =>
        cases hright : r.resolve? parts.right with
        | none => exact ⟨parts.right, .inr rfl, (hnone _).1 hright, rfl⟩
        | some right => exact absurd ⟨by simp [hleft], by simp [hright]⟩ hfails

variable [LawfulInterner ι κ]

theorem spelled_readLines (h : r.Spelled) (lines : List Text.Line) :
    (r.readLines lines).Spelled := by
  induction lines generalizing r with
  | nil => exact h
  | cons line rest ih => exact ih (step_named h line).1

/-- At every line, a reader with interned names resolves what was declared above. -/
theorem map_fst_resolve? [ViewStore σ] [BackedStore σ] (h : r.Spelled) (hempty : r.spelled = {})
    (lines : List Text.Line) (name : String) :
    ((r.readLines lines).resolve? name).map Prod.fst
      = Declaration.standsFor? name (r.named.declarations lines) := by
  rw [← resolve?_named (spelled_readLines h lines), readLines_named h,
    Reader.map_fst_resolve? (r := r.named) hempty]

end InternedReader

/-! ### Whole texts -/

section Whole

open InternedReader

variable {σ : Type u} {ι κ : Type} [ModelStore σ] [ViewStore σ] [BackedStore σ] [Interner ι κ]
  [LawfulInterner ι κ] [DecidableEq κ]

/-- **The operands of a relationship are the elements declared last above it under their names.**
Whatever the text, whatever the store refuses, and whatever names were interned before: at every
relationship line that is read outside of bodies, a name is resolved exactly if a declaration above
the line has it, and to the element of the last one that has; the line passes if both names are
resolved. A blueprint stays as it was recorded, every blueprint is that of such a line, and it is
between elements that this reading created. -/
theorem parseInterned_resolves (names : ι) (store : σ) (root : ElementId) (source : String) :
    let start : Reader σ := { store, root }
    let reading : InternedReader σ ι κ := { reader := start, names }
    let lines := Text.locatedLines source.toList
    let parsed := (parseInterned names store root source).1.1
    let read := (parseInterned names store root source).1.2
    (∀ above line below parts, lines = above ++ line :: below →
      LineShape.of (reading.readLines above).reader.body.isSome line.text = .relationship parts →
        (reading.readLines above).Resolves (start.declarations above) line parts) ∧
    (∀ above below, lines = above ++ below →
      (reading.readLines above).reader.blueprints <+: parsed.blueprints) ∧
    (∀ b ∈ parsed.blueprints, ∃ above line below parts left right,
      lines = above ++ line :: below ∧
        LineShape.of (reading.readLines above).reader.body.isSome line.text
          = .relationship parts ∧
        Declaration.standsFor? parts.left (start.declarations above) = some left ∧
        Declaration.standsFor? parts.right (start.declarations above) = some right ∧
        b.Joins left right) ∧
    ∀ b ∈ parsed.blueprints, ∀ e, e = b.source ∨ e = b.target →
      (workspace store).IsNew e ∧ ((workspace read).kind? e).isSome := by
  intro start reading lines parsed read
  have hspelled : reading.Spelled := fun symbol hk => by cases hk
  have hnamed : ∀ above, (reading.readLines above).named = start.readLines above :=
    readLines_named hspelled
  have hparsed : (parsed, read) = parse store root source :=
    parseInterned_eq names store root source
  have hblueprints : parsed.blueprints = (start.readLines lines).blueprints :=
    congrArg (fun p => p.1.blueprints) hparsed
  have hread : read = (start.readLines lines).store := congrArg Prod.snd hparsed
  have hmade : ∀ b ∈ parsed.blueprints, b ∈ (start.readLines lines).blueprints := fun b hb =>
    hblueprints ▸ hb
  have htraced : ∀ b ∈ parsed.blueprints, _ := fun b hb =>
    Reader.exists_line_of_mem_blueprints (r := start) rfl rfl (hmade b hb)
  refine ⟨fun above line below parts _ hshape => ?_, fun above below hlines => ?_,
    fun b hb => ?_, fun b hb e he => ?_⟩
  · exact resolves_of_resolve?_eq hshape (map_fst_resolve? hspelled rfl above)
  · have hprefix := (start.readLines above).prefix_blueprints_readLines below
    rw [← Reader.readLines_append, ← hlines, ← hblueprints, ← hnamed] at hprefix
    exact hprefix
  · obtain ⟨above, line, below, parts, left, right, hlines, hshape, hends⟩ := htraced b hb
    rw [← hnamed] at hshape
    exact ⟨above, line, below, parts, left, right, hlines, hshape, hends⟩
  · obtain ⟨above, line, below, parts, left, right, hlines, -, hleft, hright, hjoins⟩ :=
      htraced b hb
    have hboth : e = left ∨ e = right := by
      rcases hjoins with ⟨hsource, htarget⟩ | ⟨hsource, htarget⟩ <;> rw [hsource, htarget] at he
      · exact he
      · exact he.symm
    rw [hread, hlines]
    rcases hboth with rfl | rfl
    · exact start.created_of_standsFor? hleft _
    · exact start.created_of_standsFor? hright _

end Whole

/-- A class that is declared twice, and one that the host refuses. -/
def namesakesText : String := "class A
class B as X
class Ghost
A -- X
class A
B -- A
A -- Ghost"

/-- The relationship above the second class `A` joins the first one, that below it the second one;
`Ghost` has a symbol, but is not resolved. -/
theorem resolves_namesakesText :
    let names : NameList := ⟨["Ghost"], by simp⟩
    let store : Host := ⟨.new, ({ elements := ["Ghost"] } : Refusals).policy⟩
    let start : Reader Host := { store, root := Workspace.root }
    let reading : InternedReader Host NameList Nat := { reader := start, names }
    let lines := Text.locatedLines namesakesText.toList
    let parsed := (parseInterned names store Workspace.root namesakesText).1.1
    let line : Text.Line := ⟨"B -- A".toList, ⟨48, 54⟩⟩
    let parts : Line.RelationshipLine := ⟨"B", none, "--", none, "A", none⟩
    (reading.readLines (lines.take 5)).Resolves (start.declarations (lines.take 5)) line parts ∧
      start.declarations (lines.take 5) =
        [⟨⟨1⟩, ["A"]⟩, ⟨⟨2⟩, ["X", "B"]⟩, ⟨⟨3⟩, ["A"]⟩] ∧
      parsed.blueprints.map (fun b => (b.source, b.target)) = [(⟨1⟩, ⟨2⟩), (⟨2⟩, ⟨3⟩)] ∧
      parsed.diagnostics.map (fun d => d.code) = [some .w104, some .w101] := by
  intro names store start reading lines parsed line parts
  refine ⟨(parseInterned_resolves names store Workspace.root namesakesText).1 (lines.take 5) line
    (lines.drop 6) parts (by decide +kernel) (by decide +kernel), ?_, ?_, ?_⟩ <;> decide +kernel

end UmlText
