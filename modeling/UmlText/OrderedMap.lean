/-!
# Insertion-ordered maps

Tables whose order shows in the output: alias tables, placed views, use cases grouped by actor.
Keys are listed in the order they were first inserted. Inserting a key again changes its value and
keeps its place.
-/

namespace UmlText

universe u v

/-- A finite map that remembers the order in which its keys were first inserted. -/
structure OrderedMap (κ : Type u) (ν : Type v) where
  entries : List (κ × ν) := []
deriving Repr

namespace OrderedMap

variable {κ : Type u} {ν : Type v} [DecidableEq κ]

/-- Changes the value at `k` in a list of entries, or appends a new entry. -/
def alterEntries (k : κ) (f : Option ν → ν) : List (κ × ν) → List (κ × ν)
  | [] => [(k, f none)]
  | (k', v) :: rest =>
    if k' = k then (k', f (some v)) :: rest else (k', v) :: alterEntries k f rest

/-- The value at `k` in a list of entries. -/
def findEntry (k : κ) : List (κ × ν) → Option ν
  | [] => none
  | (k', v) :: rest => if k' = k then some v else findEntry k rest

/-- Sets the value at `k` to a function of the value it has. -/
def alter (m : OrderedMap κ ν) (k : κ) (f : Option ν → ν) : OrderedMap κ ν :=
  ⟨alterEntries k f m.entries⟩

/-- Sets the value at `k`. -/
def insert (m : OrderedMap κ ν) (k : κ) (v : ν) : OrderedMap κ ν :=
  m.alter k fun _ => v

def get? (m : OrderedMap κ ν) (k : κ) : Option ν :=
  findEntry k m.entries

omit [DecidableEq κ] in
/-- The keys, in insertion order. -/
def keys (m : OrderedMap κ ν) : List κ := m.entries.map Prod.fst

omit [DecidableEq κ] in
/-- The values, in the order of their keys. -/
def values (m : OrderedMap κ ν) : List ν := m.entries.map Prod.snd

omit [DecidableEq κ] in
def size (m : OrderedMap κ ν) : Nat := m.entries.length

@[simp]
theorem get?_empty (k : κ) : ({} : OrderedMap κ ν).get? k = none := rfl

theorem findEntry_alterEntries (k j : κ) (f : Option ν → ν) (l : List (κ × ν)) :
    findEntry j (alterEntries k f l)
      = if k = j then some (f (findEntry k l)) else findEntry j l := by
  induction l with
  | nil => simp [alterEntries, findEntry]
  | cons e rest ih =>
    obtain ⟨k', v⟩ := e
    by_cases hk : k' = k
    · subst hk
      by_cases hj : k' = j <;> simp [alterEntries, findEntry, hj]
    · by_cases hj : k' = j
      · subst hj
        simp [alterEntries, findEntry, hk, Ne.symm hk]
      · simp [alterEntries, findEntry, hk, hj, ih]

/-- An insertion is seen at its own key and nowhere else. -/
theorem get?_insert (m : OrderedMap κ ν) (k j : κ) (v : ν) :
    (m.insert k v).get? j = if k = j then some v else m.get? j :=
  findEntry_alterEntries k j _ m.entries

/-- A key that is already present keeps its place. -/
theorem keys_insert (m : OrderedMap κ ν) (k : κ) (v : ν) :
    (m.insert k v).keys = if k ∈ m.keys then m.keys else m.keys ++ [k] := by
  obtain ⟨l⟩ := m
  simp only [keys, insert, alter]
  induction l with
  | nil => simp [alterEntries]
  | cons e rest ih =>
    obtain ⟨k', w⟩ := e
    by_cases hk : k' = k
    · simp [alterEntries, hk]
    · simp only [alterEntries, hk, if_false, List.map_cons, ih, List.mem_cons, Ne.symm hk,
        false_or]
      split <;> rename_i hmem <;> simp only [hmem, if_true, if_false, List.cons_append]

/-- A new key goes to the end. -/
theorem entries_alter_of_not_mem {m : OrderedMap κ ν} {k : κ} (h : k ∉ m.keys)
    (f : Option ν → ν) : (m.alter k f).entries = m.entries ++ [(k, f none)] := by
  obtain ⟨l⟩ := m
  simp only [keys, alter] at h ⊢
  induction l with
  | nil => rfl
  | cons e rest ih =>
    obtain ⟨k', w⟩ := e
    simp only [List.map_cons, List.mem_cons, not_or] at h
    simp only [alterEntries, Ne.symm h.1, if_false, ih h.2, List.cons_append]

theorem entries_insert_of_not_mem {m : OrderedMap κ ν} {k : κ} (h : k ∉ m.keys) (v : ν) :
    (m.insert k v).entries = m.entries ++ [(k, v)] :=
  entries_alter_of_not_mem h _

theorem values_insert_of_not_mem {m : OrderedMap κ ν} {k : κ} (h : k ∉ m.keys) (v : ν) :
    (m.insert k v).values = m.values ++ [v] := by
  rw [values, entries_insert_of_not_mem h, List.map_append]
  rfl

theorem mem_of_get? {m : OrderedMap κ ν} {k : κ} {v : ν} (h : m.get? k = some v) :
    (k, v) ∈ m.entries := by
  obtain ⟨l⟩ := m
  simp only [get?] at h ⊢
  induction l with
  | nil => simp [findEntry] at h
  | cons e rest ih =>
    obtain ⟨k', w⟩ := e
    simp only [findEntry] at h
    split at h
    · next hk => simp_all
    · exact List.mem_cons_of_mem _ (ih h)

theorem get?_eq_none_iff {m : OrderedMap κ ν} {k : κ} : m.get? k = none ↔ k ∉ m.keys := by
  obtain ⟨l⟩ := m
  simp only [get?, keys]
  induction l with
  | nil => simp [findEntry]
  | cons e rest ih =>
    obtain ⟨k', w⟩ := e
    by_cases hk : k' = k
    · simp [findEntry, hk]
    · simp only [findEntry, hk, if_false, ih, List.map_cons, List.mem_cons, Ne.symm hk, false_or]

/-- In a map whose keys are distinct, a look-up finds every entry. -/
theorem get?_of_mem {m : OrderedMap κ ν} (hnodup : m.keys.Nodup) {k : κ} {v : ν}
    (h : (k, v) ∈ m.entries) : m.get? k = some v := by
  obtain ⟨l⟩ := m
  simp only [keys] at hnodup
  simp only [get?]
  induction l with
  | nil => simp at h
  | cons e rest ih =>
    obtain ⟨k', w⟩ := e
    simp only [List.map_cons, List.nodup_cons] at hnodup
    rcases List.mem_cons.1 h with heq | hmem
    · obtain ⟨rfl, rfl⟩ := Prod.mk.inj heq
      simp [findEntry]
    · have hk : k' ≠ k := by
        intro heq
        subst heq
        exact hnodup.1 (List.mem_map.2 ⟨(k', v), hmem, rfl⟩)
      simp only [findEntry, hk, if_false]
      exact ih hnodup.2 hmem

end OrderedMap

end UmlText
