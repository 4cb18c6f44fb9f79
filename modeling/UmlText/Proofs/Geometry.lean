import Mathlib.Data.List.Basic
import UmlText.Geometry

/-!
# UmlText.Proofs.Geometry

**Bounds of many rectangles.** Merging is associative and commutative, so the bounds of a list are
those of its parts, in whatever order they stand (`mergeAll_append`, `mergeAll_perm`). They are
around every rectangle of the list, and move when all of it moves.
-/

namespace UmlText

namespace Bounds

/-! ### Merging -/

theorem merge_comm (a b : Bounds) : a.merge b = b.merge a := by
  simp only [merge, Bounds.mk.injEq]
  omega

theorem merge_assoc (a b c : Bounds) : (a.merge b).merge c = a.merge (b.merge c) := by
  simp only [merge, Bounds.mk.injEq]
  omega

/-- The smallest rectangle around two that may be missing. -/
def merge? (a b : Option Bounds) : Option Bounds :=
  match a, b with
  | none, b => b
  | some a, none => some a
  | some a, some b => some (a.merge b)

theorem merge?_some (a : Bounds) (b : Option Bounds) :
    merge? (some a) b = some (b.elim a a.merge) := by
  cases b <;> rfl

theorem merge?_comm (a b : Option Bounds) : merge? a b = merge? b a := by
  cases a <;> cases b <;> simp [merge?, merge_comm]

theorem merge?_assoc (a b c : Option Bounds) :
    merge? (merge? a b) c = merge? a (merge? b c) := by
  cases a <;> cases b <;> cases c <;> simp [merge?, merge_assoc]

theorem mergeAll_cons (b : Bounds) (bs : List Bounds) :
    mergeAll (b :: bs) = merge? (some b) (mergeAll bs) := by
  cases bs with
  | nil => rfl
  | cons c cs =>
      simp only [mergeAll, merge?, List.foldl_cons, Option.some.injEq]
      induction cs generalizing c with
      | nil => rfl
      | cons d ds ih => rw [List.foldl_cons, List.foldl_cons, merge_assoc, ih]

theorem mergeAll_append (l l' : List Bounds) :
    mergeAll (l ++ l') = merge? (mergeAll l) (mergeAll l') := by
  induction l with
  | nil => rfl
  | cons b bs ih => rw [List.cons_append, mergeAll_cons, ih, mergeAll_cons, merge?_assoc]

theorem mergeAll_perm {l l' : List Bounds} (h : l.Perm l') : mergeAll l = mergeAll l' := by
  induction h with
  | nil => rfl
  | cons b _ ih => rw [mergeAll_cons, mergeAll_cons, ih]
  | swap a b l =>
      simp only [mergeAll_cons]
      rw [← merge?_assoc, merge?_comm (some b), merge?_assoc]
  | trans _ _ ih ih' => rw [ih, ih']

@[simp]
theorem mergeAll_eq_none {l : List Bounds} : mergeAll l = none ↔ l = [] := by
  cases l <;> simp [mergeAll]

theorem exists_mergeAll {l : List Bounds} {b : Bounds} (hb : b ∈ l) : ∃ m, mergeAll l = some m :=
  Option.ne_none_iff_exists'.1 fun hnone => List.ne_nil_of_mem hb (mergeAll_eq_none.1 hnone)

/-! ### Moving -/

@[simp]
theorem shift_zero (b : Bounds) : b.shift 0 0 = b := by
  simp [shift]

theorem width_shift (b : Bounds) (dx dy : Int) : (b.shift dx dy).width = b.width := by
  simp only [shift, width]
  omega

theorem shift_shift (b : Bounds) (dx dy dx' dy' : Int) :
    (b.shift dx dy).shift dx' dy' = b.shift (dx + dx') (dy + dy') := by
  simp only [shift, Bounds.mk.injEq]
  omega

theorem shift_merge (a b : Bounds) (dx dy : Int) :
    (a.merge b).shift dx dy = (a.shift dx dy).merge (b.shift dx dy) := by
  simp only [merge, shift, Bounds.mk.injEq]
  omega

theorem mergeAll_map_shift (l : List Bounds) (dx dy : Int) :
    mergeAll (l.map (·.shift dx dy)) = (mergeAll l).map (·.shift dx dy) := by
  induction l with
  | nil => rfl
  | cons b bs ih =>
      rw [List.map_cons, mergeAll_cons, mergeAll_cons, ih]
      cases mergeAll bs <;> simp [merge?, shift_merge]

theorem shift_pad (b : Bounds) (i : Insets) (dx dy : Int) :
    (b.pad i).shift dx dy = (b.shift dx dy).pad i := by
  simp only [pad, shift, Bounds.mk.injEq]
  omega

/-! ### Containment -/

theorem contains_iff {a b : Bounds} : a.contains b ↔
    a.minX ≤ b.minX ∧ a.minY ≤ b.minY ∧ b.maxX ≤ a.maxX ∧ b.maxY ≤ a.maxY := by
  simp [contains, and_assoc]

theorem contains_refl (a : Bounds) : a.contains a := by
  simp [contains]

theorem contains_trans {a b c : Bounds} (hab : a.contains b) (hbc : b.contains c) :
    a.contains c := by
  rw [contains_iff] at hab hbc ⊢
  omega

/-- The bounds of a list are those of its head alone, or merged with those of the rest. -/
theorem mergeAll_cons_cases {b m : Bounds} {bs : List Bounds} (h : mergeAll (b :: bs) = some m) :
    (bs = [] ∧ m = b) ∨ ∃ rest, mergeAll bs = some rest ∧ m = b.merge rest := by
  rw [mergeAll_cons] at h
  cases hbs : mergeAll bs with
  | none =>
      rw [hbs] at h
      exact .inl ⟨mergeAll_eq_none.1 hbs, (Option.some.inj h).symm⟩
  | some rest =>
      rw [hbs] at h
      exact .inr ⟨rest, rfl, (Option.some.inj h).symm⟩

/-- The bounds of a list are around every rectangle in it. -/
theorem mergeAll_contains {l : List Bounds} {m b : Bounds} (h : mergeAll l = some m)
    (hb : b ∈ l) : m.contains b := by
  induction l generalizing m with
  | nil => cases hb
  | cons c cs ih =>
      rcases mergeAll_cons_cases h with ⟨rfl, rfl⟩ | ⟨rest, hrest, rfl⟩
      · obtain rfl := List.mem_singleton.1 hb
        exact contains_refl _
      · rcases List.mem_cons.1 hb with rfl | hb
        · rw [contains_iff]; simp only [merge]; omega
        · refine contains_trans ?_ (ih hrest hb)
          rw [contains_iff]; simp only [merge]; omega

/-- They are the least: whatever is around all rectangles of a list is around its bounds. -/
theorem contains_mergeAll {l : List Bounds} {m a : Bounds} (h : mergeAll l = some m)
    (ha : ∀ b ∈ l, a.contains b) : a.contains m := by
  induction l generalizing m with
  | nil => cases h
  | cons c cs ih =>
      have hc := ha c List.mem_cons_self
      rcases mergeAll_cons_cases h with ⟨-, rfl⟩ | ⟨rest, hrest, rfl⟩
      · exact hc
      · have hrest := ih hrest fun b hb => ha b (List.mem_cons_of_mem _ hb)
        rw [contains_iff] at hc hrest ⊢
        simp only [merge]
        omega

/-- The top and the bottom of the bounds of a list are those of rectangles in it. -/
theorem mergeAll_attains {l : List Bounds} {m : Bounds} (h : mergeAll l = some m) :
    (∃ b ∈ l, b.minY = m.minY) ∧ ∃ b ∈ l, b.maxY = m.maxY := by
  induction l generalizing m with
  | nil => cases h
  | cons c cs ih =>
      rcases mergeAll_cons_cases h with ⟨-, rfl⟩ | ⟨rest, hrest, rfl⟩
      · exact ⟨⟨_, List.mem_cons_self, rfl⟩, ⟨_, List.mem_cons_self, rfl⟩⟩
      · obtain ⟨⟨top, htop, hminY⟩, ⟨bottom, hbottom, hmaxY⟩⟩ := ih hrest
        constructor
        · rcases Int.le_total c.minY rest.minY with hle | hle
          · exact ⟨c, List.mem_cons_self, (Int.min_eq_left hle).symm⟩
          · exact ⟨top, List.mem_cons_of_mem _ htop, hminY.trans (Int.min_eq_right hle).symm⟩
        · rcases Int.le_total rest.maxY c.maxY with hle | hle
          · exact ⟨c, List.mem_cons_self, (Int.max_eq_left hle).symm⟩
          · exact ⟨bottom, List.mem_cons_of_mem _ hbottom,
              hmaxY.trans (Int.max_eq_right hle).symm⟩

/-! ### Room inside -/

/-- A rectangle with room inside. -/
structure Solid (b : Bounds) : Prop where
  width : b.minX < b.maxX
  height : b.minY < b.maxY

theorem Solid.width_nonneg {b : Bounds} (h : b.Solid) : 0 ≤ b.width := by
  have hwidth := h.width
  simp only [Bounds.width]
  omega

/-- A rectangle around a solid one is solid. -/
theorem Solid.of_contains {a b : Bounds} (h : b.Solid) (hab : a.contains b) : a.Solid := by
  obtain ⟨hwidth, hheight⟩ := h
  rw [contains_iff] at hab
  constructor <;> omega

/-! ### Common area -/

/-- Whether two rectangles have area in common. -/
def overlaps (a b : Bounds) : Bool :=
  max a.minX b.minX < min a.maxX b.maxX && max a.minY b.minY < min a.maxY b.maxY

theorem overlaps_iff {a b : Bounds} : a.overlaps b ↔
    max a.minX b.minX < min a.maxX b.maxX ∧ max a.minY b.minY < min a.maxY b.maxY := by
  simp [overlaps]

theorem overlaps_comm (a b : Bounds) : a.overlaps b = b.overlaps a := by
  simp only [overlaps, Int.max_comm, Int.min_comm]

/-- What is around rectangles that overlap does so, too. -/
theorem overlaps_of_contains {a b a' b' : Bounds} (ha : a'.contains a) (hb : b'.contains b)
    (h : a.overlaps b) : a'.overlaps b' := by
  rw [contains_iff] at ha hb
  rw [overlaps_iff] at h ⊢
  omega

/-- A rectangle that is not padded inward is around what it was padded from. -/
theorem pad_contains (b : Bounds) {i : Insets} (htop : 0 ≤ i.top) (hright : 0 ≤ i.right)
    (hbottom : 0 ≤ i.bottom) (hleft : 0 ≤ i.left) : (b.pad i).contains b := by
  rw [contains_iff]
  simp only [pad]
  omega

end Bounds

end UmlText
