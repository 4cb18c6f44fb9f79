import UmlText.Proofs.Store.Reachable

/-!
# UmlText.Proofs.Store.Ownership

**The tree of elements.** In a workspace that any requests lead to, elements are numbered by their
places, every element but the project is listed by its parent and by nothing else, and a
relationship hangs below its source. Two operations touch elements at all, so each part of the
invariant has two lemmas: one for a new element under a parent that is known, one for an edit that
`Keeps` what the tree is made of.
-/

namespace UmlText

/-- What an edit must leave of an element: its number, its place in the model, its kind and what it
joins. -/
structure Element.Keeps (e e' : Element) : Prop where
  id_eq : e'.id = e.id
  parent_eq : e'.parent = e.parent
  owned_eq : e'.owned = e.owned
  kind?_eq : e'.kind? = e.kind?
  ends_eq : e'.body.relationship?.map (fun r => (r.kind, r.source, r.target))
    = e.body.relationship?.map fun r => (r.kind, r.source, r.target)

theorem ElementEdit.keeps (edit : ElementEdit) (e : Element) : e.Keeps (edit.apply e) :=
  ⟨edit.id_apply e, edit.parent_apply e, edit.owned_apply e, edit.kind?_apply e, edit.ends_apply e⟩

/-- A member is added in place. -/
theorem Element.keeps_withMember {e : Element} {member : Member} {body : Body}
    (h : e.body.withMember? member = some body) : e.Keeps { e with body } where
  id_eq := rfl
  parent_eq := rfl
  owned_eq := rfl
  kind?_eq := Body.kind?_withMember? h
  ends_eq := by
    have hkind := Body.kind?_of_withMember? h
    rw [Body.relationship?_of_kind? hkind,
      Body.relationship?_of_kind? (Body.kind?_withMember? h ▸ hkind)]

namespace Workspace

/-! ### Who owns whom -/

/-- The parent of an element. -/
def parent? (w : Workspace) (id : ElementId) : Option ElementId :=
  (w.element? id).bind Element.parent

/-- What an element owns, oldest first. -/
def owned (w : Workspace) (id : ElementId) : List ElementId :=
  ((w.element? id).map Element.owned).getD []

/-- What a relationship element is. -/
def relationship? (w : Workspace) (id : ElementId) : Option Relationship :=
  (w.element? id).bind fun e => e.body.relationship?

theorem lt_of_element? {w : Workspace} {id : ElementId} {e : Element}
    (h : w.element? id = some e) : id.index < w.elements.length :=
  (List.getElem?_eq_some_iff.1 h).1

theorem lt_of_kind? {w : Workspace} {id : ElementId} (h : (w.kind? id).isSome) :
    id.index < w.elements.length := by
  obtain ⟨kind, hkind⟩ := Option.isSome_iff_exists.1 h
  obtain ⟨e, he, -⟩ := Option.bind_eq_some_iff.1 hkind
  exact lt_of_element? he

theorem element?_length (w : Workspace) : w.element? ⟨w.elements.length⟩ = none :=
  List.getElem?_eq_none (Nat.le_refl _)

section Push

variable {w : Workspace} {parent : ElementId} {name : String} {body : Body}

/-- An element of a workspace with one more: the new one, or an old one that may have become the
parent of the new one. -/
theorem pushElement_cases (hparent : parent.index < w.elements.length) {id : ElementId}
    {e : Element} (h : (w.pushElement parent name body).2.element? id = some e) :
    (id = ⟨w.elements.length⟩ ∧ e = { id, name, parent := some parent, body }) ∨
      ∃ old, w.element? id = some old ∧
        e = if parent = id then { old with owned := old.owned ++ [⟨w.elements.length⟩] }
          else old := by
  rw [element?_pushElement] at h
  obtain ⟨old, hold, rfl⟩ := Option.map_eq_some_iff.1 h
  by_cases hid : id.index = w.elements.length
  · rw [if_pos hid] at hold
    obtain rfl := Option.some.inj hold
    have hne : parent ≠ id := fun heq => Nat.ne_of_lt hparent (heq ▸ hid)
    exact .inl ⟨by rw [← hid], if_neg hne⟩
  · rw [if_neg hid] at hold
    exact .inr ⟨old, hold, rfl⟩

theorem parent?_pushElement (id : ElementId) :
    (w.pushElement parent name body).2.parent? id
      = if id = ⟨w.elements.length⟩ then some parent else w.parent? id :=
  bind_element?_pushElement (fun _ _ => rfl) w parent name body id

theorem owned_pushElement (hparent : parent.index < w.elements.length) (id : ElementId) :
    (w.pushElement parent name body).2.owned id
      = if parent = id then w.owned id ++ [⟨w.elements.length⟩] else w.owned id := by
  rw [owned, owned, element?_pushElement]
  by_cases hid : id.index = w.elements.length
  · have hne : parent ≠ id := fun heq => Nat.ne_of_lt hparent (heq ▸ hid)
    have hnone : w.element? id = none := List.getElem?_eq_none (by omega)
    simp [hid, hne, hnone]
  · rw [if_neg hid]
    cases he : w.element? id with
    | none =>
        have hne : parent ≠ id := fun heq =>
          absurd (List.getElem?_eq_none_iff.1 he) (by rw [← heq]; omega)
        simp [hne]
    | some e => by_cases hp : parent = id <;> simp [hp]

theorem relationship?_pushElement (id : ElementId) :
    (w.pushElement parent name body).2.relationship? id
      = if id = ⟨w.elements.length⟩ then body.relationship? else w.relationship? id :=
  bind_element?_pushElement (fun _ _ => rfl) w parent name body id

end Push

section Edit

variable {w : Workspace} {id : ElementId} {f : Element → Element}

/-- What is found after an edit was there before, and kept what it must. -/
theorem updateElement_cases (hf : ∀ e, w.element? id = some e → e.Keeps (f e)) {j : ElementId}
    {e : Element} (h : (w.updateElement id f).element? j = some e) :
    ∃ old, w.element? j = some old ∧ old.Keeps e := by
  rw [element?_updateElement] at h
  obtain ⟨old, hold, rfl⟩ := Option.map_eq_some_iff.1 h
  refine ⟨old, hold, ?_⟩
  by_cases hj : id = j
  · rw [if_pos hj]
    exact hf old (hj ▸ hold)
  · rw [if_neg hj]
    exact ⟨rfl, rfl, rfl, rfl, rfl⟩

theorem parent?_updateElement (hf : ∀ e, w.element? id = some e → e.Keeps (f e))
    (j : ElementId) : (w.updateElement id f).parent? j = w.parent? j :=
  bind_element?_updateElement w id j fun e he => (hf e he).parent_eq

theorem owned_updateElement (hf : ∀ e, w.element? id = some e → e.Keeps (f e))
    (j : ElementId) : (w.updateElement id f).owned j = w.owned j := by
  have hread : ((w.updateElement id f).element? j).bind (some ∘ Element.owned)
      = (w.element? j).bind (some ∘ Element.owned) :=
    bind_element?_updateElement w id j fun e he => congrArg some (hf e he).owned_eq
  rw [owned, owned, Option.map_eq_bind, Option.map_eq_bind, hread]

/-- An edit may write at the ends of a relationship, but leaves what it joins. -/
theorem relationship?_updateElement (hf : ∀ e, w.element? id = some e → e.Keeps (f e))
    {j : ElementId} {r : Relationship} (h : (w.updateElement id f).relationship? j = some r) :
    ∃ old, w.relationship? j = some old ∧ r.kind = old.kind ∧ r.source = old.source ∧
      r.target = old.target := by
  obtain ⟨e, he, hr⟩ := Option.bind_eq_some_iff.1 h
  obtain ⟨e', he', hkeeps⟩ := updateElement_cases hf he
  have hends := hkeeps.ends_eq
  rw [hr] at hends
  obtain ⟨old, hold, heq⟩ := Option.map_eq_some_iff.1 hends.symm
  simp only [Prod.mk.injEq] at heq
  exact ⟨old, Option.bind_eq_some_iff.2 ⟨e', he', hold⟩, heq.1.symm, heq.2.1.symm, heq.2.2.symm⟩

theorem isSome_element?_updateElement (j : ElementId) :
    ((w.updateElement id f).element? j).isSome = (w.element? j).isSome := by
  rw [element?_updateElement, Option.isSome_map]

end Edit

/-! ### The tree -/

/-- The elements are a tree below the project, numbered in the order they were made. -/
structure Tree (w : Workspace) : Prop where
  root_known : (w.element? root).isSome
  /-- An element is numbered by its place. -/
  id_eq : ∀ id e, w.element? id = some e → e.id = id
  /-- The project alone has no parent. -/
  parent?_eq_none : ∀ id, (w.element? id).isSome → (w.parent? id = none ↔ id = root)
  /-- A parent was there before. -/
  parent?_lt : ∀ id parent, w.parent? id = some parent → parent.index < id.index
  /-- An element is listed by its parent and by nothing else; the project is not listed. -/
  mem_owned : ∀ owner id, id ∈ w.owned owner ↔ w.parent? id = some owner
  /-- So nothing is listed twice. -/
  increasing : ∀ owner, (w.owned owner).Pairwise fun a b => a.index < b.index

namespace Tree

variable {w : Workspace}

theorem owned_lt (h : w.Tree) {owner id : ElementId} (hid : id ∈ w.owned owner) :
    id.index < w.elements.length := by
  obtain ⟨e, he, -⟩ := Option.bind_eq_some_iff.1 ((h.mem_owned owner id).1 hid)
  exact lt_of_element? he

/-- The tree is a matter of the elements alone. -/
theorem congr (h : w.Tree) {w' : Workspace} (helements : w'.elements = w.elements) : w'.Tree := by
  have helement : ∀ id, w'.element? id = w.element? id := by
    intro id
    rw [element?, element?, helements]
  have hparent : ∀ id, w'.parent? id = w.parent? id := fun id => by rw [parent?, parent?, helement]
  have howned : ∀ id, w'.owned id = w.owned id := fun id => by rw [owned, owned, helement]
  refine ⟨?_, ?_, ?_, ?_, ?_, ?_⟩
  · rw [helement]; exact h.root_known
  · simpa only [helement] using h.id_eq
  · simpa only [helement, hparent] using h.parent?_eq_none
  · simpa only [hparent] using h.parent?_lt
  · simpa only [howned, hparent] using h.mem_owned
  · simpa only [howned] using h.increasing

theorem new (projectName : String) : (Workspace.new projectName).Tree := by
  have helement : ∀ id e, (Workspace.new projectName).element? id = some e →
      id = root ∧ e = { id := root, name := projectName, body := .project } := by
    intro id e he
    obtain ⟨i⟩ := id
    cases i with
    | zero => exact ⟨rfl, (Option.some.inj he).symm⟩
    | succ i => simp [element?, Workspace.new] at he
  have hparent : ∀ id, (Workspace.new projectName).parent? id = none := by
    intro id
    rw [parent?]
    cases he : (Workspace.new projectName).element? id with
    | none => rfl
    | some e => rw [(helement id e he).2]; rfl
  have howned : ∀ id, (Workspace.new projectName).owned id = [] := by
    intro id
    rw [owned]
    cases he : (Workspace.new projectName).element? id with
    | none => rfl
    | some e => rw [(helement id e he).2]; rfl
  refine ⟨rfl, ?_, ?_, ?_, ?_, ?_⟩
  · intro id e he
    obtain ⟨rfl, rfl⟩ := helement id e he
    rfl
  · intro id hid
    obtain ⟨e, he⟩ := Option.isSome_iff_exists.1 hid
    exact ⟨fun _ => (helement id e he).1, fun _ => hparent id⟩
  · simp [hparent]
  · simp [hparent, howned]
  · simp [howned]

/-- A new element under one that is known hangs at the end of the tree. -/
theorem pushElement (h : w.Tree) {parent : ElementId} {owner : Element}
    (howner : w.element? parent = some owner) (name : String) (body : Body) :
    (w.pushElement parent name body).2.Tree := by
  have hparent := lt_of_element? howner
  have hroot : root ≠ ⟨w.elements.length⟩ := fun heq =>
    Nat.ne_of_lt (lt_of_element? (Option.isSome_iff_exists.1 h.root_known).choose_spec)
      (congrArg ElementId.index heq)
  refine ⟨?_, ?_, ?_, ?_, ?_, ?_⟩
  · rw [element?_pushElement, if_neg fun heq => hroot (by rw [← heq]), Option.isSome_map]
    exact h.root_known
  · intro id e he
    rcases pushElement_cases hparent he with ⟨-, rfl⟩ | ⟨old, hold, rfl⟩
    · rfl
    · split <;> exact h.id_eq id old hold
  · intro id hid
    obtain ⟨e, he⟩ := Option.isSome_iff_exists.1 hid
    rw [parent?_pushElement]
    rcases pushElement_cases hparent he with ⟨rfl, -⟩ | ⟨old, hold, -⟩
    · simp [Ne.symm hroot]
    · rw [if_neg fun heq => Nat.ne_of_lt (lt_of_element? hold) (congrArg ElementId.index heq)]
      exact h.parent?_eq_none id (by simp [hold])
  · intro id p hp
    rw [parent?_pushElement] at hp
    split at hp
    · next hid =>
        obtain rfl := Option.some.inj hp
        rw [hid]
        exact hparent
    · exact h.parent?_lt id p hp
  · intro o id
    rw [owned_pushElement hparent, parent?_pushElement]
    by_cases hid : id = ⟨w.elements.length⟩
    · have hnew : id ∉ w.owned o := fun hmem =>
        Nat.ne_of_lt (h.owned_lt hmem) (congrArg ElementId.index hid)
      by_cases ho : parent = o <;> simp [hid, ho, hid ▸ hnew]
    · by_cases ho : parent = o <;> simp [hid, ho, h.mem_owned]
  · intro o
    rw [owned_pushElement hparent]
    split
    · refine List.pairwise_append.2 ⟨h.increasing o, List.pairwise_singleton _ _, ?_⟩
      intro a ha b hb
      obtain rfl := List.mem_singleton.1 hb
      exact h.owned_lt ha
    · exact h.increasing o

theorem updateElement (h : w.Tree) {id : ElementId} {f : Element → Element}
    (hf : ∀ e, w.element? id = some e → e.Keeps (f e)) : (w.updateElement id f).Tree := by
  refine ⟨?_, ?_, ?_, ?_, ?_, ?_⟩
  · rw [isSome_element?_updateElement]; exact h.root_known
  · intro j e he
    obtain ⟨old, hold, hkeeps⟩ := updateElement_cases hf he
    rw [hkeeps.id_eq, h.id_eq j old hold]
  · simpa only [isSome_element?_updateElement, parent?_updateElement hf] using h.parent?_eq_none
  · simpa only [parent?_updateElement hf] using h.parent?_lt
  · simpa only [owned_updateElement hf, parent?_updateElement hf] using h.mem_owned
  · simpa only [owned_updateElement hf] using h.increasing

end Tree

/-! ### Relationships in the tree -/

/-- A relationship element: a leaf below its source, made after both of its ends. -/
structure Link (w : Workspace) (id : ElementId) (r : Relationship) : Prop where
  owned_eq : w.owned id = []
  parent?_eq : w.parent? id = some r.source
  source_kind : (w.kind? r.source).isSome
  target_kind : (w.kind? r.target).isSome
  source_lt : r.source.index < id.index
  target_lt : r.target.index < id.index

/-- Every relationship element is a link. -/
def Linked (w : Workspace) : Prop :=
  ∀ id r, w.relationship? id = some r → w.Link id r

namespace Linked

variable {w : Workspace}

theorem congr (h : w.Linked) {w' : Workspace} (helements : w'.elements = w.elements) :
    w'.Linked := by
  have helement : ∀ id, w'.element? id = w.element? id := by
    intro id
    rw [element?, element?, helements]
  intro id r hr
  rw [relationship?, helement] at hr
  have hlink := h id r hr
  refine ⟨?_, ?_, ?_, ?_, hlink.source_lt, hlink.target_lt⟩
  · rw [owned, helement]; exact hlink.owned_eq
  · rw [parent?, helement]; exact hlink.parent?_eq
  · rw [kind?, helement]; exact hlink.source_kind
  · rw [kind?, helement]; exact hlink.target_kind

theorem new (projectName : String) : (Workspace.new projectName).Linked := by
  intro id r hr
  obtain ⟨i⟩ := id
  cases i with
  | zero => cases hr
  | succ i => simp [relationship?, element?, Workspace.new] at hr

/-- A new element leaves the relationships as they are, unless it is under one of them. If it is a
relationship itself, it must be below its source and join what has a kind. -/
theorem pushElement (h : w.Linked) {parent : ElementId} {owner : Element}
    (howner : w.element? parent = some owner) (hnode : owner.body.relationship? = none)
    (name : String) {body : Body} (hbody : ∀ r, body.relationship? = some r →
      r.source = parent ∧ (w.kind? r.source).isSome ∧ (w.kind? r.target).isSome) :
    (w.pushElement parent name body).2.Linked := by
  have hparent := lt_of_element? howner
  intro id r hr
  rw [relationship?_pushElement] at hr
  split at hr
  · next hid =>
      obtain ⟨rfl, hsource, htarget⟩ := hbody r hr
      refine ⟨?_, ?_, ?_, ?_, ?_, ?_⟩
      · have hne : r.source ≠ id := fun heq =>
          Nat.ne_of_lt hparent (congrArg ElementId.index (heq.trans hid))
        rw [owned_pushElement hparent, if_neg hne, owned, hid, element?_length]
        rfl
      · rw [parent?_pushElement, if_pos hid]
      · rw [kind?_pushElement hsource]; exact hsource
      · rw [kind?_pushElement htarget]; exact htarget
      · rw [hid]; exact lt_of_kind? hsource
      · rw [hid]; exact lt_of_kind? htarget
  · next hid =>
      have hlink := h id r hr
      have hne : parent ≠ id := by
        intro heq
        obtain ⟨e, he, hbody⟩ := Option.bind_eq_some_iff.1 hr
        rw [← heq, howner] at he
        obtain rfl := Option.some.inj he
        rw [hnode] at hbody
        cases hbody
      refine ⟨?_, ?_, ?_, ?_, hlink.source_lt, hlink.target_lt⟩
      · rw [owned_pushElement hparent, if_neg hne]; exact hlink.owned_eq
      · rw [parent?_pushElement, if_neg hid]; exact hlink.parent?_eq
      · rw [kind?_pushElement hlink.source_kind]; exact hlink.source_kind
      · rw [kind?_pushElement hlink.target_kind]; exact hlink.target_kind

theorem updateElement (h : w.Linked) {id : ElementId} {f : Element → Element}
    (hf : ∀ e, w.element? id = some e → e.Keeps (f e)) : (w.updateElement id f).Linked := by
  have hkind : ∀ j, (w.updateElement id f).kind? j = w.kind? j := fun j =>
    kind?_updateElement w id j fun e he => (hf e he).kind?_eq
  intro j r hr
  obtain ⟨old, hold, -, hsource, htarget⟩ := relationship?_updateElement hf hr
  have hlink := h j old hold
  refine ⟨?_, ?_, ?_, ?_, ?_, ?_⟩
  · rw [owned_updateElement hf]; exact hlink.owned_eq
  · rw [parent?_updateElement hf, hsource]; exact hlink.parent?_eq
  · rw [hkind, hsource]; exact hlink.source_kind
  · rw [hkind, htarget]; exact hlink.target_kind
  · rw [hsource]; exact hlink.source_lt
  · rw [htarget]; exact hlink.target_lt

end Linked

end Workspace

end UmlText
