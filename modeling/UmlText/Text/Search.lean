/-!
# Searching and cutting text

Texts are lists of characters. A text is cut at the first or at the last occurrence of a
character; what is before and what is behind that occurrence is returned without it.
-/

namespace UmlText.Text

/-- Whether `pattern` occurs somewhere in a text. -/
def occursIn (pattern : List Char) : List Char → Bool
  | [] => pattern.isEmpty
  | c :: cs => pattern.isPrefixOf (c :: cs) || occursIn pattern cs

/-- Cuts a text at the first `c`. -/
def cutFirst? (c : Char) : List Char → Option (List Char × List Char)
  | [] => none
  | x :: xs =>
    if x = c then some ([], xs)
    else (cutFirst? c xs).map fun (before, after) => (x :: before, after)

/-- Cuts a text at the last `c`. -/
def cutLast? (c : Char) : List Char → Option (List Char × List Char)
  | [] => none
  | x :: xs =>
    match cutLast? c xs with
    | some (before, after) => some (x :: before, after)
    | none => if x = c then some ([], xs) else none

/-- The pieces of a text are those before and behind the first `c`. -/
theorem cutFirst?_eq_some {c : Char} {cs before after : List Char}
    (h : cutFirst? c cs = some (before, after)) : cs = before ++ c :: after := by
  induction cs generalizing before with
  | nil => simp [cutFirst?] at h
  | cons x xs ih =>
    simp only [cutFirst?] at h
    split at h
    · next hx => simp_all
    · simp only [Option.map_eq_some_iff, Prod.mk.injEq, Prod.exists] at h
      obtain ⟨b, a, hba, rfl, rfl⟩ := h
      simp [ih hba]

theorem cutLast?_eq_some {c : Char} {cs before after : List Char}
    (h : cutLast? c cs = some (before, after)) : cs = before ++ c :: after := by
  induction cs generalizing before with
  | nil => simp [cutLast?] at h
  | cons x xs ih =>
    simp only [cutLast?] at h
    split at h
    · next b a hba =>
      simp only [Option.some.injEq, Prod.mk.injEq] at h
      obtain ⟨rfl, rfl⟩ := h
      simp [ih hba]
    · split at h
      · simp_all
      · simp at h

/-- The lines of a text as an editor shows them: a line feed ends a line, one carriage return
before it is dropped, and no empty line follows the last line feed. -/
def editorLines (cs : List Char) : List (List Char) :=
  let pieces := cs.splitOn '\n'
  let ended := pieces.dropLast.map fun piece =>
    if piece.getLast? = some '\r' then piece.dropLast else piece
  match pieces.getLast? with
  | some last => if last.isEmpty then ended else ended ++ [last]
  | none => ended

end UmlText.Text
