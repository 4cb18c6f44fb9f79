import Mathlib.Data.List.Sort
import UmlText.Layout.Grid
import UmlText.Layout.Packages

/-!
# UmlText.Proofs.Layout.Sorting

The sorts of a layout. They are stable, so they are also insertion sorts
(`mergeSort_eq_insertionSort`), which can be computed by unfolding. The order of the groups of a
grid is linear.
-/

namespace UmlText

universe u

/-! ### Stable sorts -/

section Stable

variable {α : Type} {le : α → α → Bool}

/-- A merge sort is the insertion sort by the same order. No two elements need be distinct: both
sorts keep equals in the order they had. -/
theorem mergeSort_eq_insertionSort (htrans : ∀ a b c, le a b → le b c → le a c)
    (htotal : ∀ a b, le a b || le b a) (l : List α) :
    l.mergeSort le = l.insertionSort fun a b => le a b := by
  induction l with
  | nil => simp
  | cons a rest ih =>
      obtain ⟨before, after, hcons, hrest, hbefore⟩ := List.mergeSort_cons htrans htotal a rest
      have hsorted := List.pairwise_mergeSort htrans htotal (a :: rest)
      rw [hcons] at hsorted
      have hafter : ∀ b ∈ after, le a b :=
        (List.pairwise_cons.1 (List.pairwise_append.1 hsorted).2.1).1
      have hsplit : ∀ b ∈ after.head?, ¬ (fun b => decide ¬ le a b) b := by
        intro b hb
        simpa using hafter b (List.mem_of_mem_head? hb)
      rw [hcons, List.insertionSort_cons, ← ih, hrest, List.orderedInsert_eq_take_drop,
        List.takeWhile_append_of_pos (by simpa using hbefore),
        List.dropWhile_append_of_pos (by simpa using hbefore)]
      cases after with
      | nil => simp
      | cons b _ => simp [hafter b List.mem_cons_self]

end Stable

/-! ### Sorting by numbers -/

section Numbers

variable {α : Type} (f : α → Nat)

theorem ascending_trans (a b c : α) (hab : decide (f a ≤ f b)) (hbc : decide (f b ≤ f c)) :
    decide (f a ≤ f c) :=
  decide_eq_true (Nat.le_trans (of_decide_eq_true hab) (of_decide_eq_true hbc))

theorem ascending_total (a b : α) : decide (f a ≤ f b) || decide (f b ≤ f a) := by
  simpa using Nat.le_total (f a) (f b)

theorem descending_trans (a b c : α) (hab : decide (f b ≤ f a)) (hbc : decide (f c ≤ f b)) :
    decide (f c ≤ f a) :=
  ascending_trans f c b a hbc hab

theorem descending_total (a b : α) : decide (f b ≤ f a) || decide (f a ≤ f b) :=
  ascending_total f b a

end Numbers

/-! ### The order of groups -/

namespace Grid

theorem keyLE_refl (a : List Nat) : keyLE a a := by
  induction a with
  | nil => rfl
  | cons x rest ih => simp [keyLE, ih]

theorem keyLE_trans : ∀ a b c : List Nat, keyLE a b → keyLE b c → keyLE a c
  | [], _, _, _, _ => by simp [keyLE]
  | _ :: _, [], _, h, _ => by simp [keyLE] at h
  | _ :: _, _ :: _, [], _, h => by simp [keyLE] at h
  | x :: xs, y :: ys, z :: zs, h, h' => by
      simp only [keyLE, Bool.or_eq_true, decide_eq_true_eq, Bool.and_eq_true] at h h' ⊢
      rcases h with h | ⟨rfl, h⟩
      · rcases h' with h' | ⟨rfl, -⟩
        · exact .inl (Nat.lt_trans h h')
        · exact .inl h
      · rcases h' with h' | ⟨rfl, h'⟩
        · exact .inl h'
        · exact .inr ⟨rfl, keyLE_trans xs ys zs h h'⟩

theorem keyLE_total : ∀ a b : List Nat, keyLE a b || keyLE b a
  | [], _ => by simp [keyLE]
  | _ :: _, [] => by simp [keyLE]
  | x :: xs, y :: ys => by
      rcases Nat.lt_trichotomy x y with h | rfl | h
      · simp [keyLE, h]
      · simpa [keyLE] using keyLE_total xs ys
      · simp [keyLE, h]

theorem keyLE_antisymm : ∀ {a b : List Nat}, keyLE a b → keyLE b a → a = b
  | [], [], _, _ => rfl
  | [], _ :: _, _, h => by simp [keyLE] at h
  | _ :: _, [], h, _ => by simp [keyLE] at h
  | x :: xs, y :: ys, h, h' => by
      simp only [keyLE, Bool.or_eq_true, decide_eq_true_eq, Bool.and_eq_true] at h h'
      have hxy : x = y := by omega
      subst hxy
      simp only [Nat.lt_irrefl, false_or, true_and] at h h'
      rw [keyLE_antisymm h h']

/-- What two keys begin with does not count. -/
theorem keyLE_append_left (c a b : List Nat) : keyLE (c ++ a) (c ++ b) = keyLE a b := by
  induction c with
  | nil => rfl
  | cons x rest ih => simp [keyLE, ih]

theorem keyLE_append (a b : List Nat) : keyLE a (a ++ b) := by
  simpa [keyLE] using keyLE_append_left a [] b

variable {σ : Type u} [ModelStore σ]

/-- The groups of a grid, sorted by insertion. -/
theorem groups_eq_insertionSort (p : Placement σ) (roots : List ElementId) :
    groups p roots =
      let keyed := (gridElements p roots).map fun e => (groupKey p roots e, e)
      let keys := (keyed.map Prod.fst).eraseDups.insertionSort fun a b => keyLE a b
      keys.map fun key => ⟨key, (keyed.filter (·.1 = key)).map Prod.snd⟩ := by
  simp only [groups, mergeSort_eq_insertionSort keyLE_trans keyLE_total]

end Grid

/-! ### The order of packages -/

namespace Packages

variable {σ : Type u} [ModelStore σ] [ViewStore σ]

/-- The packages opened one by one, sorted by insertion before and after. -/
theorem openViews_eq_insertionSort (p : Placement σ) (roots : List ElementId) :
    openViews p roots =
      let packages := (roots.filter (p.kind? · = some .package)).map fun e => (e, depth p.store e)
      let outerFirst := packages.insertionSort fun a b => decide (a.2 ≤ b.2)
      let (p, opened) := outerFirst.foldl openView (p, [])
      (p, (opened.insertionSort fun a b => decide (b.2 ≤ a.2)).map Prod.fst) := by
  have houter : ∀ l : List (ElementId × Nat), l.mergeSort (fun a b => a.2 ≤ b.2)
      = l.insertionSort fun a b => decide (a.2 ≤ b.2) :=
    mergeSort_eq_insertionSort (ascending_trans Prod.snd) (ascending_total Prod.snd)
  have hdeepest : ∀ l : List (ElementId × Nat), l.mergeSort (fun a b => b.2 ≤ a.2)
      = l.insertionSort fun a b => decide (b.2 ≤ a.2) :=
    mergeSort_eq_insertionSort (descending_trans Prod.snd) (descending_total Prod.snd)
  simp only [openViews, houter, hdeepest]

end Packages

end UmlText
