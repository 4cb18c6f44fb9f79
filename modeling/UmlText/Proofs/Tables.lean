import Mathlib.Data.List.Induction
import Mathlib.Data.List.Nodup
import UmlText.OrderedMap

/-!
# UmlText.Proofs.Tables

**Tables that are filled entry by entry.** A table keeps each key where it was first entered and
with the value it was entered with last. So its keys are the entered keys without repetitions, and
a value is in it exactly if it is the last one of some key. The order of the values follows from the
keys, not from when the values were entered.
-/

namespace UmlText

universe u v

/-! ### Lists without repetitions -/

theorem nodup_eraseDups {α : Type} [BEq α] [LawfulBEq α] : ∀ l : List α, l.eraseDups.Nodup
  | [] => List.nodup_nil
  | a :: rest => by
      rw [List.eraseDups_cons, List.nodup_cons]
      refine ⟨?_, nodup_eraseDups _⟩
      intro h
      simp at h
  termination_by l => l.length
  decreasing_by exact Nat.lt_succ_of_le (List.length_filter_le _ _)

section Distinct

variable {α β : Type} [DecidableEq α] [DecidableEq β]

/-- What is added at the end stays there if it is new. -/
theorem eraseDups_concat (l : List α) (a : α) :
    (l ++ [a]).eraseDups = if a ∈ l then l.eraseDups else l.eraseDups ++ [a] := by
  have hone : [a].eraseDups = [a] := rfl
  rw [List.eraseDups_append]
  by_cases h : a ∈ l <;> simp [List.removeAll, h, hone]

/-- Repetitions can be left out before the values are mapped. -/
theorem eraseDups_map_eraseDups (f : α → β) (l : List α) :
    (l.eraseDups.map f).eraseDups = (l.map f).eraseDups := by
  induction l using List.reverseRecOn with
  | nil => rfl
  | append_singleton l a ih =>
      rw [eraseDups_concat, List.map_append, List.map_singleton, eraseDups_concat]
      by_cases h : a ∈ l
      · rw [if_pos h, if_pos (List.mem_map_of_mem h), ih]
      · have hmem : f a ∈ l.eraseDups.map f ↔ f a ∈ l.map f := by simp
        rw [if_neg h, List.map_append, List.map_singleton, eraseDups_concat, ih]
        simp only [hmem]

/-- Without repetitions a list is in the order of the first places. -/
theorem pairwise_idxOf_eraseDups (l : List α) :
    l.eraseDups.Pairwise fun a b => l.idxOf a < l.idxOf b := by
  induction l using List.reverseRecOn with
  | nil => exact .nil
  | append_singleton l x ih =>
      have hold : l.eraseDups.Pairwise fun a b => (l ++ [x]).idxOf a < (l ++ [x]).idxOf b := by
        refine ih.imp_of_mem fun ha hb hlt => ?_
        rw [List.idxOf_append_of_mem (List.mem_eraseDups.1 ha),
          List.idxOf_append_of_mem (List.mem_eraseDups.1 hb)]
        exact hlt
      rw [eraseDups_concat]
      by_cases hx : x ∈ l
      · rw [if_pos hx]
        exact hold
      · rw [if_neg hx]
        refine List.pairwise_append.2 ⟨hold, List.pairwise_singleton _ _, ?_⟩
        intro a ha b hb
        obtain rfl := List.mem_singleton.1 hb
        have ha : a ∈ l := List.mem_eraseDups.1 ha
        rw [List.idxOf_append_of_mem ha, List.idxOf_append_of_notMem hx]
        exact Nat.lt_add_right _ (List.idxOf_lt_length_iff.2 ha)

/-- Two lists are the same without repetitions if and only if they have the same values and the
first places in one are in the order of the other. -/
theorem eraseDups_eq_iff {l c : List α} :
    l.eraseDups = c.eraseDups ↔
      (∀ a, a ∈ l ↔ a ∈ c) ∧ c.eraseDups.Pairwise fun a b => l.idxOf a < l.idxOf b := by
  constructor
  · intro h
    refine ⟨fun a => ?_, h ▸ pairwise_idxOf_eraseDups l⟩
    rw [← List.mem_eraseDups, h, List.mem_eraseDups]
  · rintro ⟨hmem, horder⟩
    have hperm : l.eraseDups.Perm c.eraseDups :=
      (List.perm_ext_iff_of_nodup (nodup_eraseDups l) (nodup_eraseDups c)).2 fun a => by
        rw [List.mem_eraseDups, List.mem_eraseDups, hmem]
    exact hperm.eq_of_pairwise (fun a b _ _ hab hba => absurd hab (Nat.lt_asymm hba))
      (pairwise_idxOf_eraseDups l) horder

theorem eraseDups_of_nodup {l : List α} (h : l.Nodup) : l.eraseDups = l := by
  induction l using List.reverseRecOn with
  | nil => rfl
  | append_singleton l a ih =>
      have h := List.nodup_append'.1 h
      have ha : a ∉ l := fun ha => h.2.2 ha (List.mem_singleton_self a)
      rw [eraseDups_concat, if_neg ha, ih h.1]

/-- A value that is added again and again is added once. -/
theorem eraseDups_append_map_const {γ : Type} (l : List α) (a : α) {cs : List γ} (h : cs ≠ []) :
    (l ++ cs.map fun _ => a).eraseDups = (l ++ [a]).eraseDups := by
  induction cs using List.reverseRecOn with
  | nil => exact absurd rfl h
  | append_singleton cs c ih =>
      cases cs with
      | nil => rfl
      | cons c' rest =>
          have hmem : a ∈ l ++ (c' :: rest).map fun _ => a := by simp
          rw [List.map_append, ← List.append_assoc, List.map_singleton, eraseDups_concat,
            if_pos hmem, ih (List.cons_ne_nil _ _)]

end Distinct

/-! ### Filling a table -/

namespace OrderedMap

variable {κ : Type} {ν : Type v} [DecidableEq κ]

/-- A table after entries were made in it, one after the other. -/
def fill (m : OrderedMap κ ν) (entered : List (κ × ν)) : OrderedMap κ ν :=
  entered.foldl (fun m e => m.insert e.1 e.2) m

/-- What was entered last under a key. -/
def last? (k : κ) : List (κ × ν) → Option ν
  | [] => none
  | (k', v) :: rest => (last? k rest).or (if k' = k then some v else none)

theorem fill_append (m : OrderedMap κ ν) (entered more : List (κ × ν)) :
    m.fill (entered ++ more) = (m.fill entered).fill more :=
  List.foldl_append

theorem last?_append (k : κ) (entered more : List (κ × ν)) :
    last? k (entered ++ more) = (last? k more).or (last? k entered) := by
  induction entered with
  | nil => simp [last?]
  | cons e rest ih =>
      rw [List.cons_append, last?, ih, Option.or_assoc]
      rfl

/-- A look-up finds what was entered last, or else what was there before. -/
theorem get?_fill (m : OrderedMap κ ν) (entered : List (κ × ν)) (k : κ) :
    (m.fill entered).get? k = (last? k entered).or (m.get? k) := by
  induction entered generalizing m with
  | nil => rfl
  | cons e rest ih =>
      show ((m.insert e.1 e.2).fill rest).get? k = _
      rw [ih, get?_insert, last?, Option.or_assoc]
      by_cases hk : e.1 = k <;> simp [hk]

theorem mem_of_last? {k : κ} {v : ν} {entered : List (κ × ν)} (h : last? k entered = some v) :
    (k, v) ∈ entered := by
  induction entered with
  | nil => cases h
  | cons e rest ih =>
      rw [last?, Option.or_eq_some_iff] at h
      rcases h with h | ⟨-, h⟩
      · exact List.mem_cons_of_mem _ (ih h)
      · split at h
        · next hk =>
            subst hk
            obtain rfl := Option.some.inj h
            exact List.mem_cons_self
        · cases h

/-- A table holds what was entered last, and nothing else that it did not hold before. -/
theorem mem_values_insert {m : OrderedMap κ ν} {k : κ} {u v : ν}
    (h : u ∈ (m.insert k v).values) : u = v ∨ u ∈ m.values := by
  obtain ⟨entries⟩ := m
  simp only [insert, alter, values] at h ⊢
  induction entries with
  | nil => exact .inl (List.mem_singleton.1 h)
  | cons e rest ih =>
      obtain ⟨k', v'⟩ := e
      rw [alterEntries] at h
      split at h
      · exact (List.mem_cons.1 h).imp_right fun h => List.mem_cons_of_mem _ h
      · rcases List.mem_cons.1 h with rfl | h
        · exact .inr List.mem_cons_self
        · exact (ih h).imp_right fun h => List.mem_cons_of_mem _ h

theorem mem_values_fill {m : OrderedMap κ ν} {entered : List (κ × ν)} {u : ν}
    (h : u ∈ (m.fill entered).values) : u ∈ m.values ∨ u ∈ entered.map Prod.snd := by
  induction entered generalizing m with
  | nil => exact .inl h
  | cons e rest ih =>
      rcases ih h with h | h
      · rcases mem_values_insert h with rfl | h
        · exact .inr List.mem_cons_self
        · exact .inl h
      · exact .inr (List.mem_cons_of_mem _ h)

/-- What is found was entered. -/
theorem mem_of_get?_fill {k : κ} {v : ν} {entered : List (κ × ν)}
    (h : (({} : OrderedMap κ ν).fill entered).get? k = some v) : (k, v) ∈ entered := by
  have hempty : ({} : OrderedMap κ ν).get? k = none := rfl
  rw [get?_fill, hempty, Option.or_none] at h
  exact mem_of_last? h

/-- The keys are those entered, each where it was entered first. -/
theorem keys_fill (entered : List (κ × ν)) :
    (({} : OrderedMap κ ν).fill entered).keys = (entered.map Prod.fst).eraseDups := by
  induction entered using List.reverseRecOn with
  | nil => rfl
  | append_singleton entered e ih =>
      have hmem : e.1 ∈ (entered.map Prod.fst).eraseDups ↔ e.1 ∈ entered.map Prod.fst :=
        List.mem_eraseDups
      rw [fill_append, List.map_append, List.map_singleton, eraseDups_concat]
      show ((({} : OrderedMap κ ν).fill entered).insert e.1 e.2).keys = _
      rw [keys_insert, ih]
      simp only [hmem]

/-- What is entered into an empty table under distinct keys is what it holds. -/
theorem entries_fill {entered : List (κ × ν)} (h : (entered.map Prod.fst).Nodup) :
    (({} : OrderedMap κ ν).fill entered).entries = entered := by
  induction entered using List.reverseRecOn with
  | nil => rfl
  | append_singleton entered e ih =>
      rw [List.map_append, List.map_singleton] at h
      have hnodup := (List.nodup_append.1 h).1
      have hnew : e.1 ∉ (({} : OrderedMap κ ν).fill entered).keys := by
        rw [keys, ih hnodup]
        exact fun he => (List.nodup_append.1 h).2.2 _ he _ (List.mem_singleton_self _) rfl
      rw [fill_append]
      exact (entries_insert_of_not_mem hnew e.2).trans (by rw [ih hnodup])

/-- In a table whose keys are distinct, the values are what is found under the keys. -/
theorem values_eq_map [Inhabited ν] {m : OrderedMap κ ν} (h : m.keys.Nodup) :
    m.values = m.keys.map fun k => (m.get? k).getD default := by
  rw [values, keys, List.map_map]
  refine List.map_congr_left fun e he => ?_
  rw [Function.comp_apply, get?_of_mem h he, Option.getD_some]

theorem mem_values_iff {m : OrderedMap κ ν} (h : m.keys.Nodup) {v : ν} :
    v ∈ m.values ↔ ∃ k, m.get? k = some v := by
  constructor
  · intro hv
    obtain ⟨e, he, rfl⟩ := List.mem_map.1 hv
    exact ⟨e.1, get?_of_mem h he⟩
  · rintro ⟨k, hk⟩
    exact List.mem_map.2 ⟨(k, v), mem_of_get? hk, rfl⟩

end OrderedMap

end UmlText
