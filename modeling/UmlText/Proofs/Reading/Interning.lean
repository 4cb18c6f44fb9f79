import UmlText.Interning
import UmlText.Proofs.Import.Renumbering

/-!
# UmlText.Proofs.Reading.Interning

**Interning changes nothing.** Whatever names an interner knows already, a reader with a table of
symbols does line by line what the reader with a table of names does: a name is found in the table
of symbols exactly when it was declared in this text, because a name without a symbol was declared
nowhere, and a symbol stands for one name.
-/

namespace UmlText

universe u

/-! ### Names in a list -/

theorem NameList.lookup?_eq_some_iff (l : NameList) (name : String) (symbol : Nat) :
    (if name ∈ l.names then some (l.names.idxOf name) else none) = some symbol
      ↔ l.names[symbol]? = some name := by
  constructor
  · intro h
    split at h
    · next hmem =>
        rw [← Option.some.inj h]
        exact List.getElem?_idxOf hmem
    · cases h
  · intro h
    obtain ⟨hlt, rfl⟩ := List.getElem?_eq_some_iff.1 h
    rw [if_pos (List.getElem_mem hlt), l.nodup.idxOf_getElem]

instance : LawfulInterner NameList Nat where
  lookup?_eq_some_iff := NameList.lookup?_eq_some_iff
  nameOf?_intern_self l name := by
    change (l.intern name).2.names[(l.intern name).1]? = some name
    rw [NameList.intern]
    split
    · next hmem => exact List.getElem?_idxOf hmem
    · exact List.getElem?_concat_length
  nameOf?_intern l name symbol other h := by
    change (l.intern name).2.names[symbol]? = some other
    have h : l.names[symbol]? = some other := h
    rw [NameList.intern]
    split
    · exact h
    · exact (List.getElem?_append_left (List.getElem?_eq_some_iff.1 h).1).trans h

/-! ### The table -/

variable {σ : Type u} {ι κ : Type} [Interner ι κ] [DecidableEq κ]

namespace InternedReader

omit [DecidableEq κ] in
/-- The same reader with a table of names. -/
def named (r : InternedReader σ ι κ) : Reader σ := { r.reader with aliases := r.spelled }

omit [DecidableEq κ] in
/-- Every symbol of the table stands for a name. -/
def Spelled (r : InternedReader σ ι κ) : Prop :=
  ∀ symbol ∈ r.table.keys, ∃ name, Interner.nameOf? r.names symbol = some name

/-- The name of a symbol of the table. -/
def spelling (names : ι) (symbol : κ) : String := (Interner.nameOf? names symbol).getD ""

omit [DecidableEq κ] in
theorem spelling_eq {names : ι} {symbol : κ} {name : String}
    (h : Interner.nameOf? names symbol = some name) : spelling names symbol = name := by
  rw [spelling, h, Option.getD_some]

omit [DecidableEq κ] in
theorem spelled_eq (r : InternedReader σ ι κ) :
    r.spelled = r.table.map (spelling r.names) id := rfl

variable [LawfulInterner ι κ] {r : InternedReader σ ι κ}

omit [DecidableEq κ] in
/-- A symbol of the table is told from others by its name. -/
theorem Spelled.symbol_unique (h : r.Spelled) {symbol symbol' : κ} {name : String}
    (hname : Interner.nameOf? r.names symbol = some name) (hsymbol' : symbol' ∈ r.table.keys)
    (heq : spelling r.names symbol' = spelling r.names symbol) : symbol' = symbol := by
  obtain ⟨name', hname'⟩ := h symbol' hsymbol'
  rw [spelling_eq hname, spelling_eq hname'] at heq
  subst heq
  have hfound := (LawfulInterner.lookup?_eq_some_iff _ _ _).2 hname
  exact Option.some.inj
    (((LawfulInterner.lookup?_eq_some_iff _ _ _).2 hname').symm.trans hfound)

/-- A name is looked up under its symbol. -/
theorem Spelled.get?_spelled (h : r.Spelled) (name : String) :
    r.spelled.get? name = (Interner.lookup? r.names name).bind r.table.get? := by
  rw [spelled_eq]
  cases hlookup : Interner.lookup? r.names name with
  | some symbol =>
      have hname := (LawfulInterner.lookup?_eq_some_iff _ _ _).1 hlookup
      have hget := OrderedMap.get?_map_of (g := id) (m := r.table) (k := symbol)
        (f := spelling r.names) fun _ hk heq => h.symbol_unique hname hk heq
      rw [spelling_eq hname, Option.map_id] at hget
      exact hget
  | none =>
      -- A name without a symbol is not the name of a symbol in the table.
      rw [Option.bind_none, OrderedMap.get?_eq_none_iff]
      intro hmem
      simp only [OrderedMap.keys, OrderedMap.map, List.map_map, List.mem_map] at hmem
      obtain ⟨x, hx, hspelling⟩ := hmem
      obtain ⟨name', hname'⟩ := h x.1 (List.mem_map_of_mem hx)
      have heq : name' = name := (spelling_eq hname').symm.trans hspelling
      rw [(LawfulInterner.lookup?_eq_some_iff _ _ _).2 (heq ▸ hname')] at hlookup
      cases hlookup

/-- What is declared under a name is entered under its symbol. -/
theorem register_named (h : r.Spelled) (name : String) (element : ElementId) :
    (r.register name element).Spelled ∧
      (r.register name element).named = r.named.register name element := by
  rcases hintern : Interner.intern r.names name with ⟨symbol, names⟩
  have hself : Interner.nameOf? names symbol = some name := by
    have hself := LawfulInterner.nameOf?_intern_self r.names name
    rwa [hintern] at hself
  have hkept : ∀ symbol' other, Interner.nameOf? r.names symbol' = some other →
      Interner.nameOf? names symbol' = some other := by
    intro symbol' other hother
    have hkept := LawfulInterner.nameOf?_intern r.names name symbol' other hother
    rwa [hintern] at hkept
  -- The interner may have grown, but the symbols of the table stand for what they stood for.
  have hgrown : ({ r with names } : InternedReader σ ι κ).Spelled := fun symbol' hk =>
    (h symbol' hk).imp fun other hother => hkept symbol' other hother
  have hsame : r.table.map (spelling names) id = r.spelled := by
    rw [spelled_eq, OrderedMap.map, OrderedMap.map, OrderedMap.mk.injEq]
    refine List.map_congr_left fun x hx => ?_
    obtain ⟨other, hother⟩ := h x.1 (List.mem_map_of_mem hx)
    rw [spelling_eq hother, spelling_eq (hkept x.1 other hother)]
  simp only [register, hintern]
  constructor
  · intro symbol' hk
    simp only [OrderedMap.keys_insert] at hk
    split at hk
    · exact hgrown symbol' hk
    · rcases List.mem_append.1 hk with hk | hk
      · exact hgrown symbol' hk
      · obtain rfl := List.mem_singleton.1 hk
        exact ⟨name, hself⟩
  · have hinsert := OrderedMap.insert_map_of (g := id) (f := spelling names) (m := r.table)
      (k := symbol) (fun _ hk heq => hgrown.symbol_unique hself hk heq) element
    rw [spelling_eq hself, hsame] at hinsert
    exact congrArg (fun aliases => { r.reader with aliases }) hinsert.symm

/-! ### Line by line -/

variable [ModelStore σ]

theorem resolve?_named (h : r.Spelled) (name : String) : r.named.resolve? name = r.resolve? name := by
  have hget : r.named.aliases.get? name = _ := h.get?_spelled name
  simp only [Reader.resolve?, resolve?, Option.bind_eq_bind, hget, Option.bind_assoc]
  rfl

omit [DecidableEq κ] [LawfulInterner ι κ] in
/-- A declaration does not look at the table. -/
theorem declare_named (r : InternedReader σ ι κ) (span : Text.Span) (kind : ElementKind)
    (name : String) (isAbstract : Bool) :
    r.named.declare span kind name isAbstract
      = ((r.reader.declare span kind name isAbstract).1,
          { r with reader := (r.reader.declare span kind name isAbstract).2 }.named) := by
  have hparent : r.named.parent = r.reader.parent := rfl
  have hstore : r.named.store = r.reader.store := rfl
  simp only [Reader.declare, hparent, hstore]
  rcases ModelStore.createElement r.reader.store
    { kind, parent := r.reader.parent, name, isAbstract } with ⟨_ | _, store⟩ <;> rfl

theorem openPackage_named (h : r.Spelled) (span : Text.Span) (header : Line.PackageHeader) :
    (r.openPackage span header).Spelled ∧
      (r.openPackage span header).named = r.named.openPackage span header := by
  have hparent : r.named.parent = r.reader.parent := rfl
  simp only [openPackage, Reader.openPackage, declare_named, hparent]
  rcases r.reader.declare span .package header.name false with ⟨created, reader⟩
  have hdeclared : ({ r with reader } : InternedReader σ ι κ).Spelled := h
  cases created with
  | none =>
      split
      · exact ⟨h, rfl⟩
      · exact ⟨h, rfl⟩
  | some element =>
      obtain ⟨hregistered, hnamed⟩ :=
        register_named hdeclared (header.aliasName.getD header.name) element
      simp only [← hnamed]
      split
      · exact ⟨hregistered, rfl⟩
      · exact ⟨hregistered, rfl⟩

theorem openEntity_named (h : r.Spelled) (span : Text.Span) (header : Line.EntityHeader) :
    (r.openEntity span header).Spelled ∧
      (r.openEntity span header).named = r.named.openEntity span header := by
  simp only [openEntity, Reader.openEntity, declare_named]
  rcases r.reader.declare span header.kind header.name header.isAbstract with ⟨created, reader⟩
  have hdeclared : ({ r with reader } : InternedReader σ ι κ).Spelled := h
  cases created with
  | none =>
      split
      · exact ⟨h, rfl⟩
      · exact ⟨h, rfl⟩
  | some element =>
      cases header.aliasName with
      | none =>
          obtain ⟨hregistered, hnamed⟩ := register_named hdeclared header.name element
          simp only [← hnamed]
          split
          · exact ⟨hregistered, rfl⟩
          · exact ⟨hregistered, rfl⟩
      | some aliasName =>
          obtain ⟨haliased, hnamed'⟩ := register_named hdeclared aliasName element
          obtain ⟨hregistered, hnamed⟩ := register_named haliased header.name element
          simp only [← hnamed', ← hnamed]
          split
          · exact ⟨hregistered, rfl⟩
          · exact ⟨hregistered, rfl⟩

omit [DecidableEq κ] [LawfulInterner ι κ] in
theorem addMember_named (r : InternedReader σ ι κ) (span : Text.Span) (line : List Char) :
    ({ r with reader := r.reader.addMember span line } : InternedReader σ ι κ).named
      = r.named.addMember span line := by
  have hbody : r.named.body = r.reader.body := rfl
  have hstore : r.named.store = r.reader.store := rfl
  simp only [Reader.addMember, hbody, hstore]
  split
  · next id kind _ =>
      split
      · rfl
      · next member _ =>
          rcases ModelStore.addMember r.reader.store id member with ⟨_ | _, store⟩ <;> rfl
  · rfl
  · rfl

omit [ModelStore σ] [LawfulInterner ι κ] [DecidableEq κ] in
theorem closeBlock_named (r : InternedReader σ ι κ) (span : Text.Span) :
    ({ r with reader := r.reader.closeBlock span } : InternedReader σ ι κ).named
      = r.named.closeBlock span := by
  have hbody : r.named.body = r.reader.body := rfl
  have hcontainers : r.named.containers = r.reader.containers := rfl
  simp only [Reader.closeBlock, hbody, hcontainers]
  split <;> rfl

theorem relate_named (h : r.Spelled) (span : Text.Span) (parts : Line.RelationshipLine) :
    (r.relate span parts).Spelled ∧ (r.relate span parts).named = r.named.relate span parts := by
  simp only [relate, Reader.relate, resolve?_named h]
  cases r.resolve? parts.left with
  | none => exact ⟨h, rfl⟩
  | some left =>
      cases r.resolve? parts.right with
      | none => exact ⟨h, rfl⟩
      | some right =>
          dsimp only
          cases Reader.blueprint? parts left right with
          | none => exact ⟨h, rfl⟩
          | some blueprint => exact ⟨h, rfl⟩

/-- One line is read as with a table of names. -/
theorem step_named (h : r.Spelled) (line : Text.Line) :
    (r.step line).Spelled ∧ (r.step line).named = r.named.step line := by
  have hbody : r.named.body = r.reader.body := rfl
  simp only [step, Reader.step, hbody]
  cases LineShape.of r.reader.body.isSome line.text with
  | ignored => exact ⟨h, rfl⟩
  | member => exact ⟨h, addMember_named r _ _⟩
  | package header => exact openPackage_named h _ _
  | entity header => exact openEntity_named h _ _
  | close => exact ⟨h, closeBlock_named r _⟩
  | relationship parts => exact relate_named h _ _
  | unknown => exact ⟨h, rfl⟩

theorem readLines_named (h : r.Spelled) (lines : List Text.Line) :
    (r.readLines lines).named = r.named.readLines lines := by
  induction lines generalizing r with
  | nil => rfl
  | cons line rest ih =>
      obtain ⟨hnext, hline⟩ := step_named h line
      exact (ih hnext).trans (congrArg (Reader.readLines · rest) hline)

end InternedReader

/-! ### Whole texts -/

section Whole

variable [LawfulInterner ι κ] [ModelStore σ]

/-- **Parsing** does not depend on what was interned before. -/
theorem parseInterned_eq (names : ι) (store : σ) (root : ElementId) (source : String) :
    (parseInterned names store root source).1 = parse store root source := by
  have hstart : ({ reader := { store, root }, names } : InternedReader σ ι κ).Spelled := by
    intro symbol hk
    cases hk
  have hlines := InternedReader.readLines_named hstart (Text.locatedLines source.toList)
  have hread : (InternedReader.readText names store root source.toList).named
      = Reader.readText store root source.toList := by
    refine Eq.trans ?_ (congrArg (Reader.finish · (Text.endSpan source.toList)) hlines)
    rfl
  rw [parse, ← hread]
  rfl

/-- Nor does an import. -/
theorem importInterned_eq [ViewStore σ] (names : ι) (store : σ) (source : String)
    (s : LayoutSettings) : (importInterned names store source s).1 = importText store source s := by
  simp only [importText, ← parseInterned_eq names]
  rfl

end Whole

end UmlText
