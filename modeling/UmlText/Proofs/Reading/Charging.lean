import Mathlib.Algebra.BigOperators.Group.Finset.Piecewise
import Mathlib.Algebra.GroupWithZero.Nat
import Mathlib.Algebra.Order.BigOperators.Group.Finset
import UmlText.Proofs.Exchange.Recognized
import UmlText.Proofs.Reading.Naming
import UmlText.Proofs.Reading.Outcomes

/-!
# UmlText.Proofs.Reading.Charging

**What a text declares is paid for in characters.** The header of an element takes a keyword, a gap,
its name and the end of the line, and every member takes a line. A line declares one thing at most,
so all that is declared costs no more characters than the text has (`sum_charge_parse`).
-/

namespace UmlText

universe u

open BackedStore (workspace)

/-- The characters that declaring an element takes: six for the keyword, the gap behind it and the
end of the line, those of its name, and one for each member. What has no kind was not declared. -/
def Element.charge (e : Element) : Nat :=
  if e.kind?.isSome then 6 + e.name.length + e.memberCount else 0

/-- The characters that declaring an element of a workspace takes. -/
def Workspace.charge (w : Workspace) (id : ElementId) : Nat :=
  (w.element? id).elim 0 Element.charge

/-! ### Edits -/

namespace Workspace

/-- A new element without members takes a header. -/
theorem charge_pushElement (w : Workspace) (parent : ElementId) (name : String)
    (kind : ElementKind) (isAbstract : Bool) (id : ElementId) :
    (w.pushElement parent name (.empty kind isAbstract)).2.charge id
      ≤ w.charge id + if id = ⟨w.elements.length⟩ then 6 + name.length else 0 := by
  have hkeeps : ∀ (e : Element) (owned : List ElementId), ({ e with owned } : Element).charge
      = e.charge := fun _ _ => rfl
  rw [charge, charge, element?_pushElement]
  by_cases hnew : id.index = w.elements.length
  · have hid : id = ⟨w.elements.length⟩ := by rw [← hnew]
    rw [if_pos hnew, if_pos hid, Option.map_some, Option.elim_some]
    have hheader : ({ id, name, parent := some parent, body := .empty kind isAbstract } :
        Element).charge ≤ 6 + name.length := by
      rw [Element.charge]
      split
      · simp only [Element.memberCount, Body.memberCount_empty]
        omega
      · omega
    split
    · rw [hkeeps]
      omega
    · omega
  · rw [if_neg hnew]
    cases w.element? id with
    | none => exact Nat.zero_le _
    | some e =>
        rw [Option.map_some, Option.elim_some, Option.elim_some]
        split
        · exact Nat.le_add_right _ _
        · exact Nat.le_add_right _ _

/-- A member takes one character. -/
theorem charge_updateElement {w : Workspace} {owner : ElementId} {element : Element}
    {member : Member} {body : Body} (helement : w.element? owner = some element)
    (hbody : element.body.withMember? member = some body) (id : ElementId) :
    (w.updateElement owner fun e => { e with body }).charge id
      ≤ w.charge id + if id = owner then 1 else 0 := by
  rw [charge, charge, element?_updateElement]
  by_cases hid : id = owner
  · subst hid
    have hkind := Body.kind?_withMember? hbody
    have hcount := Body.memberCount_withMember? hbody
    simp only [helement, Option.map_some, if_true, Option.elim_some, Element.charge,
      Element.kind?, hkind, Element.memberCount, hcount]
    by_cases hsome : element.body.kind?.isSome
    · simp only [hsome, if_true]
      omega
    · simp [hsome]
  · have hother : ∀ e : Element, (if owner = id then { e with body } else e) = e :=
      fun _ => if_neg (Ne.symm hid)
    simp only [hother, Option.map_id']
    omega

/-- What is paid for one element is paid for all of them together. -/
theorem sum_charge_le {w w' : Workspace} {owner : ElementId} {cost : Nat}
    (h : ∀ id, w'.charge id ≤ w.charge id + if id = owner then cost else 0)
    (ids : Finset ElementId) : ∑ id ∈ ids, w'.charge id ≤ ∑ id ∈ ids, w.charge id + cost := by
  have hsum : ∑ id ∈ ids, (if id = owner then cost else 0) ≤ cost := by
    rw [Finset.sum_ite_eq']
    split <;> omega
  calc ∑ id ∈ ids, w'.charge id
      ≤ ∑ id ∈ ids, (w.charge id + if id = owner then cost else 0) :=
        Finset.sum_le_sum fun id _ => h id
    _ = ∑ id ∈ ids, w.charge id + ∑ id ∈ ids, (if id = owner then cost else 0) :=
        Finset.sum_add_distrib
    _ ≤ ∑ id ∈ ids, w.charge id + cost := Nat.add_le_add_left hsum _

end Workspace

/-! ### Headers -/

namespace Line

/-- A keyword takes itself and a gap. -/
theorem length_of_keyword? {word : String} {line rest : List Char}
    (h : keyword? word line = some rest) : word.length + 1 + rest.length ≤ line.length := by
  obtain ⟨behind, hword, hgap⟩ := Option.bind_eq_some_iff.1 h
  obtain rfl := List.isPrefixOf?_eq_some_iff_append_eq.1 hword
  obtain ⟨⟨gap, rest'⟩, hrun, rfl⟩ := Option.map_eq_some_iff.1 hgap
  obtain ⟨rfl, hne, -⟩ := run?_eq_some hrun
  have hpos := List.length_pos_iff.2 hne
  simp only [List.length_append, String.length_toList]
  omega

/-- A reader of keywords that takes five characters at least. -/
def TakesFive {α : Type} (line : List Char) (read : Option (α × List Char)) : Prop :=
  ∀ found rest, read = some (found, rest) → 5 + rest.length ≤ line.length

theorem TakesFive.orElse {α : Type} {line : List Char} {a b : Option (α × List Char)}
    (ha : TakesFive line a) (hb : TakesFive line b) : TakesFive line (a <|> b) := by
  cases a with
  | none => exact hb
  | some found => exact ha

theorem takesFive_keyword? {α : Type} {word : String} (hword : 4 ≤ word.length) (found : α)
    (line : List Char) : TakesFive line ((keyword? word line).map (found, ·)) := by
  intro found' rest hread
  obtain ⟨behind, hbehind, heq⟩ := Option.map_eq_some_iff.1 hread
  obtain ⟨rfl, rfl⟩ := Prod.mk.inj heq
  have hlength := length_of_keyword? hbehind
  omega

/-- The keyword of an entity and its gap are five characters at least. -/
theorem takesFive_entityKeyword? (line : List Char) : TakesFive line (entityKeyword? line) := by
  refine .orElse ?_ <| .orElse (takesFive_keyword? (by decide) _ _) <|
    .orElse (takesFive_keyword? (by decide) _ _) <| .orElse (takesFive_keyword? (by decide) _ _) <|
    .orElse (takesFive_keyword? (by decide) _ _) <|
    .orElse (takesFive_keyword? (by decide) _ _) (takesFive_keyword? (by decide) _ _)
  intro found rest hread
  obtain ⟨behind, hbehind, heq⟩ := Option.map_eq_some_iff.1 hread
  obtain ⟨rfl, rfl⟩ := Prod.mk.inj heq
  obtain ⟨middle, habstract, hclass⟩ := Option.bind_eq_some_iff.1 hbehind
  have hfirst : 8 + 1 + middle.length ≤ line.length := length_of_keyword? habstract
  have hsecond := length_of_keyword? hclass
  omega

/-- A name is no longer than what it is read from. -/
theorem length_of_nameAndAlias? {cs rest : List Char} {name : String} {aliasName : Option String}
    (h : nameAndAlias? cs = some ((name, aliasName), rest)) : name.length ≤ cs.length := by
  simp only [nameAndAlias?, Option.bind_eq_bind, Option.bind_eq_some_iff] at h
  obtain ⟨⟨word, behind⟩, hname, h⟩ := h
  have hword : word.length ≤ cs.length := by
    rw [name?, Option.orElse_eq_orElse, Option.orElse_eq_or, Option.or_eq_some_iff] at hname
    rcases hname with hquoted | ⟨-, hrun⟩
    · obtain ⟨rfl, -, -⟩ := quoted?_eq_some hquoted
      simp only [List.cons_append, List.length_cons, List.length_append]
      omega
    · obtain ⟨rfl, -, -⟩ := run?_eq_some hrun
      rw [List.length_append]
      omega
  split at h <;> cases h <;> rwa [String.length_ofList]

end Line

/-- A header pays for what it declares. -/
theorem LineShape.length_of_request? {inBody : Bool} {line : List Char} {parent : ElementId}
    {request : NewElement} (h : (LineShape.of inBody line).request? parent = some request) :
    6 + request.name.length ≤ line.length + 1 := by
  cases hshape : LineShape.of inBody line with
  | entity header =>
      rw [hshape] at h
      obtain rfl := Option.some.inj h
      have hheader := LineShape.of_eq_entity hshape
      simp only [Line.entityHeader?, Option.bind_eq_bind, Option.bind_eq_some_iff] at hheader
      obtain ⟨⟨⟨kind, isAbstract⟩, rest⟩, hkeyword, ⟨⟨name, aliasName⟩, behind⟩, hname, hheader⟩ :=
        hheader
      obtain rfl := Option.some.inj hheader
      have hfive : 5 + rest.length ≤ line.length := Line.takesFive_entityKeyword? line _ _ hkeyword
      have hlength : name.length ≤ rest.length := Line.length_of_nameAndAlias? hname
      show 6 + name.length ≤ line.length + 1
      omega
  | package header =>
      rw [hshape] at h
      obtain rfl := Option.some.inj h
      have hheader := LineShape.of_eq_package hshape
      simp only [Line.packageHeader?, Option.bind_eq_bind] at hheader
      split at hheader
      · cases hheader
      · simp only [Option.bind_eq_some_iff] at hheader
        obtain ⟨rest, hkeyword, ⟨⟨name, aliasName⟩, behind⟩, hname, hheader⟩ := hheader
        obtain rfl := Option.some.inj hheader
        have hkeyword : 7 + 1 + rest.length ≤ line.length := Line.length_of_keyword? hkeyword
        have hlength := Line.length_of_nameAndAlias? hname
        show 6 + name.length ≤ line.length + 1
        omega
  | ignored | member | close | relationship | unknown =>
      rw [hshape] at h
      cases h

/-! ### Lines -/

namespace Text

/-- The characters of a line with its end. -/
def Line.cost (line : Line) : Nat := line.text.length + 1

/-- The pieces between separators take the whole text, and one separator more. -/
theorem sum_length_intercalate {c : Char} {pieces : List (List Char)} (hne : pieces ≠ []) :
    (pieces.map fun piece => piece.length + 1).sum = ([c].intercalate pieces).length + 1 := by
  induction pieces with
  | nil => exact absurd rfl hne
  | cons piece rest ih =>
      cases rest with
      | nil => simp
      | cons next rest =>
          have ih := ih (by simp)
          rw [List.map_cons, List.sum_cons, ih, List.intercalate_cons_cons]
          simp only [List.length_append, List.length_singleton]
          omega

/-- The lines of a text take no more characters than it has, and one line end more. -/
theorem sum_cost_locatedLines (cs : List Char) :
    ((locatedLines cs).map Line.cost).sum ≤ cs.length + 1 := by
  have htext : (locatedLines cs).map Line.cost
      = (cs.splitOn '\n').map fun piece => (trim piece).length + 1 := by
    have hlines := congrArg (List.map fun text : List Char => text.length + 1)
      (map_text_locateFrom 0 (cs.splitOn '\n'))
    rwa [List.map_map, List.map_map] at hlines
  have hpieces := sum_length_intercalate (c := '\n') (List.splitOn_ne_nil '\n' cs)
  rw [List.intercalate_splitOn] at hpieces
  rw [htext, ← hpieces]
  exact List.sum_le_sum fun piece _ => Nat.succ_le_succ (infix_trim piece).length_le

end Text

/-! ### Reading -/

namespace Reader

variable {σ : Type u} [ModelStore σ] [ViewStore σ] [BackedStore σ]

/-- A line pays for what it declares. -/
theorem sum_charge_step (r : Reader σ) (line : Text.Line) (ids : Finset ElementId) :
    ∑ id ∈ ids, (workspace (r.step line).store).charge id
      ≤ ∑ id ∈ ids, (workspace r.store).charge id + line.cost := by
  rcases r.workspace_step_cases line with
    ⟨-, hw⟩ | ⟨request, hrequest, -, hw⟩ | ⟨-, owner, member, element, body, helement, hbody, hw⟩
  · rw [hw]
    exact Nat.le_add_right _ _
  · rw [hw]
    refine (Workspace.sum_charge_le (Workspace.charge_pushElement _ _ _ _ _) ids).trans ?_
    exact Nat.add_le_add_left (LineShape.length_of_request? hrequest) _
  · rw [hw]
    refine (Workspace.sum_charge_le (Workspace.charge_updateElement helement hbody) ids).trans ?_
    exact Nat.add_le_add_left (Nat.le_add_left 1 _) _

theorem sum_charge_readLines (r : Reader σ) (lines : List Text.Line) (ids : Finset ElementId) :
    ∑ id ∈ ids, (workspace (r.readLines lines).store).charge id
      ≤ ∑ id ∈ ids, (workspace r.store).charge id + (lines.map Text.Line.cost).sum := by
  induction lines generalizing r with
  | nil => exact Nat.le_refl _
  | cons line rest ih =>
      have hrest := ih (r.step line)
      have hstep := r.sum_charge_step line ids
      rw [List.map_cons, List.sum_cons]
      rw [readLines_cons]
      omega

end Reader

/-- **A text pays for all that it declares**: whatever elements there are afterwards, they take no
more characters than those that were there before and the text. -/
theorem sum_charge_parse {σ : Type u} [ModelStore σ] [ViewStore σ] [BackedStore σ] (store : σ)
    (root : ElementId) (source : String) (ids : Finset ElementId) :
    ∑ id ∈ ids, (workspace (parse store root source).2).charge id
      ≤ ∑ id ∈ ids, (workspace store).charge id + (source.length + 1) := by
  have hread := Reader.sum_charge_readLines ({ store, root } : Reader σ)
    (Text.locatedLines source.toList) ids
  have hlines := Text.sum_cost_locatedLines source.toList
  rw [String.length_toList] at hlines
  exact hread.trans (Nat.add_le_add_left hlines _)

end UmlText
