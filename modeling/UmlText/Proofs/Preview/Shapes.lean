import UmlText.Preview
import UmlText.Proofs.Geometry
import UmlText.Proofs.Layout.Spots

/-!
# UmlText.Proofs.Preview.Shapes

**Shapes stay near the box of what they show.** A box suits an element if it has room inside, if an
actor in it is not wider than high, and if a classifier in it has a line for every member. All
shapes of an element are then in its box or at most the margin of a preview outside
(`Suits.holds_of_mem`), and the base lines of members are strictly inside
(`forall₂_memberLines`). The line and the label of a relationship are within the margin of any
box around its ends (`holds_of_mem_relationshipShapes`).
-/

namespace UmlText

/-! ### Points in boxes -/

namespace Bounds

/-- Whether a point lies in a rectangle, borders included. -/
def covers (b : Bounds) (p : Point) : Prop :=
  b.minX ≤ p.x ∧ p.x ≤ b.maxX ∧ b.minY ≤ p.y ∧ p.y ≤ b.maxY

/-- Whether a point lies in a rectangle, but on none of its borders. -/
def surrounds (b : Bounds) (p : Point) : Prop :=
  b.minX < p.x ∧ p.x < b.maxX ∧ b.minY < p.y ∧ p.y < b.maxY

/-- Whether a shape is drawn between points of a rectangle. -/
def holds (b : Bounds) (shape : Shape) : Prop :=
  ∀ p ∈ shape.extremes, b.covers p

variable {a b : Bounds} {p : Point} {shape : Shape}

theorem covers_of_surrounds (h : b.surrounds p) : b.covers p := by
  simp only [surrounds, covers] at h ⊢
  omega

theorem covers_of_contains (hab : a.contains b) (h : b.covers p) : a.covers p := by
  rw [contains_iff] at hab
  simp only [covers] at h ⊢
  omega

theorem holds_of_contains (hab : a.contains b) (h : b.holds shape) : a.holds shape :=
  fun p hp => covers_of_contains hab (h p hp)

@[simp]
theorem holds_rectangle {r : Bounds} {fill : String} : b.holds (.rectangle r fill) ↔
    b.covers ⟨r.minX, r.minY⟩ ∧ b.covers ⟨r.maxX, r.maxY⟩ := by
  simp [holds, Shape.extremes]

@[simp]
theorem holds_ellipse {center : Point} {rx ry : Int} : b.holds (.ellipse center rx ry) ↔
    b.covers ⟨center.x - rx, center.y - ry⟩ ∧ b.covers ⟨center.x + rx, center.y + ry⟩ := by
  simp [holds, Shape.extremes]

@[simp]
theorem holds_circle {center : Point} {r : Int} : b.holds (.circle center r) ↔
    b.covers ⟨center.x - r, center.y - r⟩ ∧ b.covers ⟨center.x + r, center.y + r⟩ := by
  simp [holds, Shape.extremes]

@[simp]
theorem holds_line {start stop : Point} {dashed : Bool} {m m' : Option LineMarker} :
    b.holds (.line start stop dashed m m') ↔ b.covers start ∧ b.covers stop := by
  simp [holds, Shape.extremes]

@[simp]
theorem holds_text {content : String} {style : TextStyle} :
    b.holds (.text p content style) ↔ b.covers p := by
  simp [holds, Shape.extremes]

theorem Solid.width_pos (h : b.Solid) : 0 < b.width := Int.sub_pos.2 h.width

theorem Solid.height_pos (h : b.Solid) : 0 < b.height := Int.sub_pos.2 h.height

/-- Half of the extent of a box with room inside is rounded down. -/
theorem Solid.center_eq (h : b.Solid) :
    b.center = ⟨b.minX + b.width / 2, b.minY + b.height / 2⟩ := by
  rw [center, Int.tdiv_eq_ediv_of_nonneg h.width_pos.le,
    Int.tdiv_eq_ediv_of_nonneg h.height_pos.le]

theorem Solid.covers_center (h : b.Solid) : b.covers b.center := by
  have hwidth := h.width_pos
  have hheight := h.height_pos
  rw [h.center_eq]
  simp only [covers, Bounds.width, Bounds.height] at hwidth hheight ⊢
  omega

end Bounds

/-- The body of a class, an interface or an enumeration. -/
def Body.isClassifier : Body → Bool
  | umlClass _ | interface _ | enumeration _ => true
  | _ => false

theorem Body.eq_package {body : Body} (h : body.kind? = some .package) : body = .package := by
  cases body <;> first | rfl | cases h

namespace Drawing

open Bounds (covers surrounds holds)

/-- A box with the margin of a preview around it. -/
def outer (b : Bounds) : Bounds := b.pad (.uniform margin)

theorem covers_outer {b : Bounds} {p : Point} : (outer b).covers p ↔
    b.minX - 20 ≤ p.x ∧ p.x ≤ b.maxX + 20 ∧ b.minY - 20 ≤ p.y ∧ p.y ≤ b.maxY + 20 :=
  Iff.rfl

theorem outer_contains (b : Bounds) : (outer b).contains b :=
  b.pad_contains (by decide) (by decide) (by decide) (by decide)

theorem outer_contains_outer {a b : Bounds} (h : a.contains b) : (outer a).contains (outer b) := by
  rw [Bounds.contains_iff] at h ⊢
  simp only [outer, Bounds.pad]
  omega

/-! ### Members -/

theorem length_memberLines (body : Body) : (memberLines body).length = body.memberCount := by
  cases body <;>
    simp [memberLines, Body.memberCount, Body.literals?, Body.classifier?]

/-- A shape that writes a line, with its anchor strictly inside a box. -/
def WritesInside (b : Bounds) (line : String) (shape : Shape) : Prop :=
  ∃ p, shape = .text p line {} ∧ b.surrounds p

/-- Lines are inside a box if the last one is. -/
theorem forall₂_memberShapes {b : Bounds} {x y : Int} {lines : List String}
    (hleft : b.minX < x) (hright : x < b.maxX) (htop : b.minY < y)
    (hroom : y + 15 * lines.length < b.maxY + 15) :
    List.Forall₂ (WritesInside b) lines (memberShapes x y lines) := by
  induction lines generalizing y with
  | nil => exact .nil
  | cons line rest ih =>
      rw [List.length_cons] at hroom
      refine .cons ⟨⟨x, y⟩, rfl, hleft, hright, htop, ?_⟩ (ih ?_ ?_) <;>
        simp only [lineHeight] <;> omega

/-- **The members of a classifier are strictly inside its box**, if there is a line for each of them
below the title, and something is left. -/
theorem forall₂_memberLines {b : Bounds} {body : Body} (hwidth : 5 < b.width)
    (hroom : 25 + 15 * body.memberCount < b.height) :
    List.Forall₂ (WritesInside b) (memberLines body)
      (memberShapes (b.minX + 5) (b.minY + nameHeight + lineHeight) (memberLines body)) := by
  rw [← length_memberLines] at hroom
  simp only [Bounds.width, Bounds.height] at hwidth hroom
  refine forall₂_memberShapes (by omega) (by omega) ?_ ?_ <;>
    simp only [nameHeight, lineHeight] <;> omega

/-! ### Elements -/

section

variable {b : Bounds} {name : String} {shape : Shape}

theorem holds_of_mem_packageShapes (h : b.Solid) {fill : String}
    (hshape : shape ∈ packageShapes fill b name) : (outer b).holds shape := by
  obtain ⟨hwidth, hheight⟩ := h
  simp only [packageShapes, List.mem_cons, List.not_mem_nil, or_false] at hshape
  rcases hshape with rfl | rfl <;>
    simp only [Bounds.holds_rectangle, Bounds.holds_text, covers_outer] <;> omega

theorem holds_of_mem_useCaseShapes (h : b.Solid) (hshape : shape ∈ useCaseShapes b name) :
    (outer b).holds shape := by
  have hwidth := h.width_pos
  have hheight := h.height_pos
  simp only [useCaseShapes, List.mem_cons, List.not_mem_nil, or_false] at hshape
  rcases hshape with rfl | rfl
  · rw [Bounds.holds_ellipse, covers_outer, covers_outer, h.center_eq,
      Int.tdiv_eq_ediv_of_nonneg hwidth.le, Int.tdiv_eq_ediv_of_nonneg hheight.le]
    simp only [Bounds.width, Bounds.height] at hwidth hheight ⊢
    omega
  · rw [Bounds.holds_text]
    exact Bounds.covers_of_contains (outer_contains b) h.covers_center

/-- The head of an actor is half as wide as its box. If the box is not wider than high, the head is
above the hip, with the arms between them. -/
theorem holds_of_mem_actorShapes (h : b.Solid) (hslim : b.width ≤ b.height)
    (hshape : shape ∈ actorShapes b name) : (outer b).holds shape := by
  have hwidth := h.width_pos
  have hheight := h.height_pos
  have hmaxX : b.maxX = b.minX + b.width := by simp only [Bounds.width]; omega
  have hmaxY : b.maxY = b.minY + b.height := by simp only [Bounds.height]; omega
  have hcenter : b.center.x = b.minX + b.width / 2 := by rw [h.center_eq]
  obtain ⟨radius, hradius⟩ : ∃ radius, b.width.tdiv 4 = radius := ⟨_, rfl⟩
  obtain ⟨hip, hhip⟩ : ∃ hip, (b.height * 5).tdiv 8 = hip := ⟨_, rfl⟩
  have hneck : 0 ≤ 2 * radius ∧ 4 * radius ≤ b.width ∧ 2 * radius ≤ hip ∧ hip ≤ b.height := by
    rw [Int.tdiv_eq_ediv_of_nonneg hwidth.le] at hradius
    rw [Int.tdiv_eq_ediv_of_nonneg (by omega)] at hhip
    omega
  have hwaist : 0 ≤ b.minY + hip - (b.minY + 2 * radius) := by omega
  simp only [actorShapes, hradius, hhip, Shape.plainLine, lineHeight, List.mem_cons,
    List.not_mem_nil, or_false, Int.tdiv_eq_ediv_of_nonneg hwaist] at hshape
  rcases hshape with rfl | rfl | rfl | rfl | rfl | rfl <;>
    simp only [Bounds.holds_circle, Bounds.holds_line, Bounds.holds_text, covers_outer] <;> omega

theorem holds_of_mem_classifierShapes {body : Body} (hwidth : 5 < b.width)
    (hroom : 25 + 15 * body.memberCount < b.height)
    (hshape : shape ∈ classifierShapes b name body) : (outer b).holds shape := by
  rcases List.mem_append.1 hshape with hframe | hmember
  · have hsolid : b.Solid := by
      simp only [Bounds.width, Bounds.height] at hwidth hroom
      constructor <;> omega
    obtain ⟨hleft, hright, -, -⟩ := hsolid.covers_center
    simp only [Bounds.width, Bounds.height] at hwidth hroom
    simp only [Shape.plainLine, List.mem_cons, List.not_mem_nil, or_false] at hframe
    rcases hframe with rfl | rfl | rfl <;>
      simp only [Bounds.holds_rectangle, Bounds.holds_text, Bounds.holds_line, covers_outer,
        nameHeight] <;>
      omega
  · obtain ⟨line, -, p, rfl, hp⟩ :=
      exists_of_forall₂ (forall₂_memberLines hwidth hroom).flip hmember
    rw [Bounds.holds_text]
    exact Bounds.covers_of_contains (outer_contains b) (Bounds.covers_of_surrounds hp)

end

/-- A box in which an element can be drawn. -/
structure Suits (b : Bounds) (e : Element) : Prop where
  solid : b.Solid
  actor : e.body = .actor → b.width ≤ b.height
  classifier : e.body.isClassifier → 5 < b.width ∧ 25 + 15 * e.memberCount < b.height

theorem Suits.of_package {b : Bounds} {e : Element} (h : b.Solid) (hbody : e.body = .package) :
    Suits b e := by
  refine ⟨h, fun hactor => ?_, fun hclassifier => ?_⟩
  · rw [hbody] at hactor
    cases hactor
  · rw [hbody] at hclassifier
    cases hclassifier

/-- **What is drawn of an element** is in its box, or at most the margin outside. -/
theorem Suits.holds_of_mem {b : Bounds} {e : Element} (h : Suits b e) {fill : String}
    {shape : Shape} (hshape : shape ∈ elementShapes fill b e) : (outer b).holds shape := by
  unfold elementShapes at hshape
  split at hshape
  case h_1 => exact holds_of_mem_packageShapes h.solid hshape
  case h_2 hbody => exact holds_of_mem_actorShapes h.solid (h.actor hbody) hshape
  case h_3 => exact holds_of_mem_useCaseShapes h.solid hshape
  case h_4 hbody | h_5 hbody | h_6 hbody =>
    obtain ⟨hwidth, hroom⟩ := h.classifier (by rw [hbody]; rfl)
    exact holds_of_mem_classifierShapes hwidth hroom hshape
  all_goals cases hshape

/-- Behind its frame, its title and a line, a classifier has its members. -/
theorem Suits.exists_members {b : Bounds} {e : Element} (h : Suits b e)
    (hbody : e.body.isClassifier) (fill : String) :
    ∃ front lines, elementShapes fill b e = front ++ lines ∧ front.length = 3 ∧
      List.Forall₂ (WritesInside b) (memberLines e.body) lines := by
  obtain ⟨hwidth, hroom⟩ := h.classifier hbody
  have hshapes : elementShapes fill b e = classifierShapes b e.name e.body := by
    unfold elementShapes
    cases hcases : e.body <;> first | rfl | simp [hcases, Body.isClassifier] at hbody
  exact ⟨_, _, hshapes, rfl, forall₂_memberLines hwidth hroom⟩

/-! ### Relationships -/

/-- Half of a sum is between the two, even if it is rounded toward zero. -/
theorem tdiv_two_mem {low x y high : Int} (hx : low ≤ x ∧ x ≤ high) (hy : low ≤ y ∧ y ≤ high) :
    low ≤ (x + y).tdiv 2 ∧ (x + y).tdiv 2 ≤ high := by
  rcases Int.le_total 0 (x + y) with hsum | hsum
  · rw [Int.tdiv_eq_ediv_of_nonneg hsum]
    omega
  · rw [← Int.neg_neg (x + y), Int.neg_tdiv, Int.tdiv_eq_ediv_of_nonneg (Int.neg_nonneg.2 hsum)]
    omega

/-- **What is drawn of a relationship** is at most the margin outside of a box around its ends. -/
theorem holds_of_mem_relationshipShapes {b : Bounds} {tail head : Point} (htail : b.covers tail)
    (hhead : b.covers head) {name : String} {r : Relationship} {shape : Shape}
    (hshape : shape ∈ relationshipShapes tail head name r) : (outer b).holds shape := by
  rcases List.mem_cons.1 hshape with rfl | hlabel
  · rw [Bounds.holds_line]
    exact ⟨Bounds.covers_of_contains (outer_contains b) htail,
      Bounds.covers_of_contains (outer_contains b) hhead⟩
  · split at hlabel
    · cases hlabel
    · obtain rfl := List.mem_singleton.1 hlabel
      obtain ⟨hleft, hright, htop, hbottom⟩ := htail
      obtain ⟨hleft', hright', htop', hbottom'⟩ := hhead
      have hx := tdiv_two_mem ⟨hleft, hright⟩ ⟨hleft', hright'⟩
      have hy := tdiv_two_mem ⟨htop, hbottom⟩ ⟨htop', hbottom'⟩
      rw [Bounds.holds_text, covers_outer]
      simp only
      omega

end Drawing

end UmlText
