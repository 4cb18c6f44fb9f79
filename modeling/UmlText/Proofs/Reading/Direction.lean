import UmlText.Proofs.Reading.Stepping
import UmlText.Proofs.Text.Cutting
import UmlText.Store.Workspace

/-!
# UmlText.Proofs.Reading.Direction

**Which way a recorded relationship points.** A line of dashes or dots with a head at one side says
which operand is meant to be the target. Whether the operands are swapped is decided by the arrow
alone, while the kind may still be changed by the label. An arrow `<--` is a plain association for
the rules of arrows, with its operands as they are written; a label that makes it an inclusion or an
extension leaves them so, and the blueprint points away from the head. Every other directed
relationship points at the head of its arrow.
-/

namespace UmlText

universe u

/-! ### Heads -/

/-- The two sides of an arrow. -/
inductive Side where
  | left
  | right
deriving DecidableEq, Repr

namespace Side

/-- The heads that an arrow can have at a side, open and closed. -/
def heads : Side → List (List Char)
  | left => [['<'], ['<', '|']]
  | right => [['>'], ['|', '>']]

/-- A line with a head at a side. -/
def attach (head line : List Char) : Side → List Char
  | left => head ++ line
  | right => line ++ head

end Side

/-- A run of dashes or of dots with a head at one side only. -/
def Headed (side : Side) (arrow : String) : Prop :=
  ∃ head ∈ side.heads, ∃ line, ArrowMeaning.isPlainLine line ∧
    arrow.toList = side.attach head line

/-- A run of dashes with an open head at the left. -/
def LeftDashed (arrow : String) : Prop := "<--".toList <+: arrow.toList

instance (arrow : String) : Decidable (LeftDashed arrow) :=
  inferInstanceAs (Decidable ("<--".toList <+: arrow.toList))

/-- The kinds whose blueprints go from a source to a target. -/
def RelationshipKind.isDirected : RelationshipKind → Bool
  | association => false
  | _ => true

/-- A blueprint of two operands that goes to the operand at a side. -/
def Blueprint.PointsAt (b : Blueprint) (left right : ElementId) : Side → Prop
  | .left => b.source = right ∧ b.target = left
  | .right => b.source = left ∧ b.target = right

namespace ArrowMeaning

open Text

/-! ### Arrows with a head -/

/-- A line is drawn with one character. -/
theorem exists_replicate_of_isPlainLine {line : List Char} (h : isPlainLine line) :
    ∃ c n, (c = '-' ∨ c = '.') ∧ line = List.replicate (n + 2) c := by
  simp only [isPlainLine, Bool.and_eq_true, decide_eq_true_eq, Bool.or_eq_true,
    List.all_eq_true] at h
  obtain ⟨hlength, hdash | hdot⟩ := h
  · exact ⟨'-', line.length - 2, .inl rfl,
      List.eq_replicate_iff.2 ⟨by omega, fun c hc => by simpa using hdash c hc⟩⟩
  · exact ⟨'.', line.length - 2, .inr rfl,
      List.eq_replicate_iff.2 ⟨by omega, fun c hc => by simpa using hdot c hc⟩⟩

theorem mem_attach {c : Char} {side : Side} {head line : List Char} :
    c ∈ side.attach head line ↔ c ∈ head ∨ c ∈ line := by
  cases side <;> simp [Side.attach, or_comm]

/-- A piece with a character that is neither in the head nor in the line is not in the arrow. -/
theorem occursIn_attach_eq_false {pattern head : List Char} {side : Side} {d : Char} {n : Nat}
    (h : pattern.any fun c => c ∉ head && c ≠ d) :
    occursIn pattern (side.attach head (List.replicate n d)) = false := by
  obtain ⟨c, hc, hother⟩ := List.any_eq_true.1 h
  simp only [Bool.and_eq_true, decide_eq_true_eq] at hother
  refine Bool.eq_false_iff.2 fun hoccurs => ?_
  rcases mem_attach.1 ((occursIn_iff.1 hoccurs).subset hc) with hhead | hline
  · exact hother.1 hhead
  · exact hother.2 (List.eq_of_mem_replicate hline)

/-- A left head is found with the beginning of its line. -/
theorem occursIn_attach_left {pattern head : List Char} {d : Char} (h : pattern = head ++ [d, d])
    (n : Nat) : occursIn pattern (Side.left.attach head (List.replicate (n + 2) d)) := by
  rw [h, occursIn_iff, Side.attach, Nat.add_comm, List.replicate_add, ← List.append_assoc]
  exact (List.prefix_append _ _).isInfix

/-- A right head is found with the end of its line. -/
theorem occursIn_attach_right {pattern head : List Char} {d : Char} (h : pattern = [d, d] ++ head)
    (n : Nat) : occursIn pattern (Side.right.attach head (List.replicate (n + 2) d)) := by
  rw [h, occursIn_iff, Side.attach, List.replicate_add, List.append_assoc]
  exact (List.suffix_append _ _).isInfix

/-- A closed head makes a generalization or an interface realization toward it. -/
theorem ofArrow?_closed {d : Char} (hd : d = '-' ∨ d = '.') (n : Nat) (left right : ElementKind) :
    let kind := if d = '-' then RelationshipKind.generalization else .interfaceRealization
    ofArrow? (Side.left.attach ['<', '|'] (List.replicate (n + 2) d)) left right
        = some { kind, swapped := true } ∧
      ofArrow? (Side.right.attach ['|', '>'] (List.replicate (n + 2) d)) left right
        = some { kind, swapped := false } := by
  rcases hd with rfl | rfl <;>
    simp (disch := decide) [ofArrow?, String.reduceToList, occursIn_attach_eq_false,
      occursIn_attach_left, occursIn_attach_right]

/-- An open head on dots makes a dependency toward it. -/
theorem ofArrow?_openDots (n : Nat) (left right : ElementKind) :
    ofArrow? (Side.left.attach ['<'] (List.replicate (n + 2) '.')) left right
        = some { kind := .dependency, swapped := true } ∧
      ofArrow? (Side.right.attach ['>'] (List.replicate (n + 2) '.')) left right
        = some { kind := .dependency, swapped := false } := by
  simp (disch := decide) [ofArrow?, String.reduceToList, occursIn_attach_eq_false,
    occursIn_attach_left, occursIn_attach_right]

/-- An open head on dashes makes an association that is never swapped. -/
theorem ofArrow?_openDashes (n : Nat) (left right : ElementKind) :
    ofArrow? (Side.left.attach ['<'] (List.replicate (n + 2) '-')) left right
        = some { kind := .association, left := { navigable := true } } ∧
      ofArrow? (Side.right.attach ['>'] (List.replicate (n + 2) '-')) left right
        = some { kind := .association, right := { navigable := true } } := by
  simp (disch := decide) [ofArrow?, String.reduceToList, occursIn_attach_eq_false,
    occursIn_attach_left, occursIn_attach_right]

/-- An arrow with a head at the left is swapped, unless it is `<--` for the rules. -/
theorem swapped_of_headed {side : Side} {arrow : String} (h : Headed side arrow)
    {left right : ElementKind} {m : ArrowMeaning}
    (hm : ofArrow? arrow.toList left right = some m) :
    m.swapped = (side = .left && !LeftDashed arrow) ∧
      (LeftDashed arrow → side = .left ∧ m.kind = .association) := by
  obtain ⟨head, hhead, line, hline, harrow⟩ := h
  obtain ⟨d, n, hd, rfl⟩ := exists_replicate_of_isPlainLine hline
  simp only [LeftDashed, harrow]
  rw [harrow] at hm
  cases side <;> simp only [Side.heads, List.mem_cons, List.not_mem_nil, or_false] at hhead <;>
    rcases hhead with rfl | rfl
  · rcases hd with rfl | rfl
    · obtain rfl := Option.some.inj ((ofArrow?_openDashes n left right).1.symm.trans hm)
      simp [Side.attach, List.replicate_succ]
    · obtain rfl := Option.some.inj ((ofArrow?_openDots n left right).1.symm.trans hm)
      simp [Side.attach, List.replicate_succ]
  · obtain rfl := Option.some.inj ((ofArrow?_closed hd n left right).1.symm.trans hm)
    simp [Side.attach]
  · rcases hd with rfl | rfl
    · obtain rfl := Option.some.inj ((ofArrow?_openDashes n left right).2.symm.trans hm)
      simp [Side.attach, List.replicate_succ]
    · obtain rfl := Option.some.inj ((ofArrow?_openDots n left right).2.symm.trans hm)
      simp [Side.attach, List.replicate_succ]
  · obtain rfl := Option.some.inj ((ofArrow?_closed hd n left right).2.symm.trans hm)
    rcases hd with rfl | rfl <;> simp [Side.attach, List.replicate_succ]

/-- A label does not swap operands. -/
theorem swapped_withLabel (m : ArrowMeaning) (label : Option String) :
    (m.withLabel label).swapped = m.swapped := by
  simp only [withLabel]
  split <;> rfl

theorem kind_of_stereotype? {label : String} {kind : RelationshipKind}
    (h : stereotype? label = some kind) : kind = .inclusion ∨ kind = .extension := by
  simp only [stereotype?] at h
  split at h
  · exact .inl (Option.some.inj h).symm
  · split at h
    · exact .inr (Option.some.inj h).symm
    · cases h

/-- A label keeps the kind, or makes an inclusion or an extension. -/
theorem kind_withLabel (m : ArrowMeaning) (label : Option String) :
    (m.withLabel label).kind = m.kind ∨ (m.withLabel label).kind = .inclusion ∨
      (m.withLabel label).kind = .extension := by
  simp only [withLabel]
  split
  · next kind hkind =>
      split at hkind
      · obtain ⟨text, -, htext⟩ := Option.bind_eq_some_iff.1 hkind
        exact .inr (kind_of_stereotype? htext)
      · cases hkind
  · exact .inl rfl

end ArrowMeaning

variable {σ : Type u} [ModelStore σ]

namespace Reader

/-! ### Recorded lines -/

/-- A relationship line with the elements that its operands stood for, and its blueprint. -/
structure Recording where
  parts : Line.RelationshipLine
  left : ElementId × ElementKind
  right : ElementId × ElementKind
  blueprint : Blueprint
deriving DecidableEq, Repr

/-- What is recorded for a line. -/
def recording? (r : Reader σ) (line : Text.Line) : Option Recording :=
  match LineShape.of r.body.isSome line.text with
  | .relationship parts => do
    let left ← r.resolve? parts.left
    let right ← r.resolve? parts.right
    let blueprint ← blueprint? parts left right
    return { parts, left, right, blueprint }
  | _ => none

/-- What is recorded for lines that are read one after the other. -/
def recordings (r : Reader σ) : List Text.Line → List Recording
  | [] => []
  | line :: rest => (r.recording? line).toList ++ (r.step line).recordings rest

theorem blueprints_openPackage (r : Reader σ) (span : Text.Span) (header : Line.PackageHeader) :
    (r.openPackage span header).blueprints = r.blueprints := by
  rcases r.openPackage_cases span header with ⟨error, store, -, h⟩ | ⟨id, store, -, h⟩ <;>
    rw [h]

theorem blueprints_openEntity (r : Reader σ) (span : Text.Span) (header : Line.EntityHeader) :
    (r.openEntity span header).blueprints = r.blueprints := by
  rcases r.openEntity_cases span header with ⟨error, store, -, h⟩ | ⟨id, store, -, h⟩ <;>
    rw [h]

omit [ModelStore σ] in
theorem blueprints_closeBlock (r : Reader σ) (span : Text.Span) :
    (r.closeBlock span).blueprints = r.blueprints := by
  rcases r.closeBlock_cases span with ⟨-, h⟩ | ⟨-, body, containers, h, -⟩ <;> rw [h]
  rfl

theorem blueprints_addMember (r : Reader σ) (span : Text.Span) (line : List Char) :
    (r.addMember span line).blueprints = r.blueprints := by
  rcases r.addMember_cases span line with ⟨-, h⟩ | ⟨id, kind, -, -, h⟩ |
    ⟨id, kind, member, error, store, -, -, -, h⟩ | ⟨id, kind, member, store, -, -, -, h⟩ <;> rw [h]
  · rfl
  · rfl

/-- A line appends the blueprint that is recorded for it, and nothing else. -/
theorem blueprints_step (r : Reader σ) (line : Text.Line) :
    (r.step line).blueprints
      = r.blueprints ++ (r.recording? line).toList.map Recording.blueprint := by
  rw [step, recording?]
  cases LineShape.of r.body.isSome line.text with
  | ignored => simp
  | member => simp [blueprints_addMember]
  | package header => simp [blueprints_openPackage]
  | entity header => simp [blueprints_openEntity]
  | close => simp [blueprints_closeBlock]
  | unknown => simp [report]
  | relationship parts =>
      rcases r.relate_cases line.span parts with ⟨name, hname, hnone, h⟩ |
        ⟨left, right, hleft, hright, hb, h⟩ | ⟨left, right, blueprint, hleft, hright, hb, h⟩
      · rcases hname with rfl | rfl
        · simp [h, hnone, report]
        · cases r.resolve? parts.left <;> simp [h, hnone, report]
      · simp [h, hleft, hright, hb, report]
      · simp [h, hleft, hright, hb]

theorem blueprints_readLines (r : Reader σ) (lines : List Text.Line) :
    (r.readLines lines).blueprints
      = r.blueprints ++ (r.recordings lines).map Recording.blueprint := by
  induction lines generalizing r with
  | nil => simp [recordings]
  | cons line rest ih =>
      rw [readLines_cons, ih, blueprints_step, recordings, List.map_append, List.append_assoc]

/-- What is recorded is read off a relationship line whose operands stand for elements. -/
theorem recording?_eq_some {r : Reader σ} {line : Text.Line} {made : Recording}
    (h : r.recording? line = some made) :
    LineShape.of r.body.isSome line.text = .relationship made.parts ∧
      r.resolve? made.parts.left = some made.left ∧
      r.resolve? made.parts.right = some made.right ∧
      blueprint? made.parts made.left made.right = some made.blueprint := by
  rw [recording?] at h
  split at h
  · next parts hshape =>
      simp only [Option.bind_eq_bind, Option.bind_eq_some_iff] at h
      obtain ⟨left, hleft, right, hright, blueprint, hb, h⟩ := h
      obtain rfl := Option.some.inj h
      exact ⟨hshape, hleft, hright, hb⟩
  · cases h

theorem blueprint?_of_recording? {r : Reader σ} {line : Text.Line} {made : Recording}
    (h : r.recording? line = some made) :
    blueprint? made.parts made.left made.right = some made.blueprint :=
  (recording?_eq_some h).2.2.2

/-- A recording was made at one of the lines. -/
theorem exists_recording?_of_mem_recordings {r : Reader σ} {lines : List Text.Line}
    {made : Recording} (h : made ∈ r.recordings lines) :
    ∃ above line below, lines = above ++ line :: below ∧
      (r.readLines above).recording? line = some made := by
  induction lines generalizing r with
  | nil => cases h
  | cons line rest ih =>
      rcases List.mem_append.1 h with h | h
      · exact ⟨[], line, rest, rfl, Option.mem_toList.1 h⟩
      · obtain ⟨above, line', below, rfl, hmade⟩ := ih h
        exact ⟨line :: above, line', below, rfl, hmade⟩

theorem blueprint?_of_mem_recordings {r : Reader σ} {lines : List Text.Line} {made : Recording}
    (h : made ∈ r.recordings lines) :
    blueprint? made.parts made.left made.right = some made.blueprint := by
  obtain ⟨above, line, below, -, hmade⟩ := exists_recording?_of_mem_recordings h
  exact blueprint?_of_recording? hmade

/-! ### Directions -/

/-- A blueprint points at the head of its arrow, unless the arrow is `<--`. -/
theorem pointsAt_iff_of_blueprint? {parts : Line.RelationshipLine}
    {left right : ElementId × ElementKind} {b : Blueprint}
    (h : blueprint? parts left right = some b)
    {side : Side} (hside : Headed side parts.arrow) :
    b.PointsAt left.1 right.1 side ↔ ¬ LeftDashed parts.arrow ∨ left.1 = right.1 := by
  obtain ⟨meaning, hmeaning, rfl⟩ := Option.map_eq_some_iff.1 h
  obtain ⟨plain, hplain, rfl⟩ := Option.map_eq_some_iff.1 hmeaning
  obtain ⟨hswapped, hdashed⟩ := ArrowMeaning.swapped_of_headed hside hplain
  rw [ArrowMeaning.swapped_withLabel, hswapped]
  by_cases harrow : LeftDashed parts.arrow
  · obtain ⟨rfl, -⟩ := hdashed harrow
    simp [harrow, Blueprint.PointsAt, eq_comm]
  · cases side <;> simp [harrow, Blueprint.PointsAt]

/-- The directed blueprints of an arrow `<--` are made by a label. -/
theorem kind_of_leftDashed {parts : Line.RelationshipLine} {left right : ElementId × ElementKind}
    {b : Blueprint} (h : blueprint? parts left right = some b) {side : Side}
    (hside : Headed side parts.arrow) (harrow : LeftDashed parts.arrow)
    (hdirected : b.kind.isDirected) : b.kind = .inclusion ∨ b.kind = .extension := by
  obtain ⟨meaning, hmeaning, rfl⟩ := Option.map_eq_some_iff.1 h
  obtain ⟨plain, hplain, rfl⟩ := Option.map_eq_some_iff.1 hmeaning
  have hkind : plain.kind = .association :=
    ((ArrowMeaning.swapped_of_headed hside hplain).2 harrow).2
  rw [apply_ite Blueprint.kind, ite_self] at hdirected ⊢
  rcases ArrowMeaning.kind_withLabel plain parts.label with hlabel | hlabel
  · rw [hlabel, hkind] at hdirected
    cases hdirected
  · exact hlabel

/-- **Directed relationships point at the head of their arrow, but for `<--`.** The blueprints of a
text are, in order, those of its recorded relationship lines. Take one of a directed kind whose
arrow is a run of dashes or dots with a head at one side. Its target is the operand at the head and
its source is the other one exactly if the arrow is not a run of dashes with an open head at the
left; of those that are, only the ones that a label makes an inclusion or an extension are
directed. -/
theorem recordings_point_at_heads (store : σ) (root : ElementId) (source : List Char) :
    let made := ({ store, root } : Reader σ).recordings (Text.locatedLines source)
    (readText store root source).blueprints = made.map Recording.blueprint ∧
      ∀ m ∈ made, m.blueprint.kind.isDirected → ∀ side, Headed side m.parts.arrow →
        (m.blueprint.PointsAt m.left.1 m.right.1 side ↔
          ¬ LeftDashed m.parts.arrow ∨ m.left.1 = m.right.1) ∧
        (LeftDashed m.parts.arrow →
          m.blueprint.kind = .inclusion ∨ m.blueprint.kind = .extension) := by
  intro made
  refine ⟨?_, fun m hm hdirected side hside => ?_⟩
  · exact (blueprints_readLines _ (Text.locatedLines source)).trans (List.nil_append _)
  · have hb := blueprint?_of_mem_recordings hm
    exact ⟨pointsAt_iff_of_blueprint? hb hside,
      fun harrow => kind_of_leftDashed hb hside harrow hdirected⟩

/-- A dotted line with its head at the left makes an inclusion that points at the head. -/
theorem recording_points_at_dotted_head :
    let made := ({ store := .new, root := Workspace.root : Reader Workspace }).recordings
      (Text.locatedLines "usecase Pay\nusecase Order\nPay <... Order : <<include>>".toList)
    ∃ m ∈ made, m.blueprint.kind.isDirected ∧ Headed .left m.parts.arrow ∧
      m.blueprint.PointsAt m.left.1 m.right.1 .left := by
  intro made
  let m : Recording := {
    parts := ⟨"Pay", none, "<...", none, "Order", some "<<include>>"⟩
    left := (⟨1⟩, .useCase)
    right := (⟨2⟩, .useCase)
    blueprint := { kind := .inclusion, source := ⟨2⟩, target := ⟨1⟩ } }
  have hm : m ∈ made := by decide +kernel
  have hhead : Headed .left m.parts.arrow := ⟨['<'], by decide, "...".toList, by decide, by decide⟩
  have hpoints := (recordings_point_at_heads Workspace.new Workspace.root
    "usecase Pay\nusecase Order\nPay <... Order : <<include>>".toList).2 m hm rfl .left hhead
  exact ⟨m, hm, rfl, hhead, hpoints.1.2 (.inl (by decide))⟩

/-- The same relationship drawn with dashes points away from the head. -/
theorem recording_points_away_dashed_head :
    let made := ({ store := .new, root := Workspace.root : Reader Workspace }).recordings
      (Text.locatedLines "usecase Pay\nusecase Order\nPay <-- Order : <<include>>".toList)
    ∃ m ∈ made, m.blueprint.kind.isDirected ∧ Headed .left m.parts.arrow ∧
      ¬ m.blueprint.PointsAt m.left.1 m.right.1 .left := by
  intro made
  let m : Recording := {
    parts := ⟨"Pay", none, "<--", none, "Order", some "<<include>>"⟩
    left := (⟨1⟩, .useCase)
    right := (⟨2⟩, .useCase)
    blueprint :=
      { kind := .inclusion, source := ⟨1⟩, target := ⟨2⟩, end1 := { navigable := true } } }
  have hhead : Headed .left m.parts.arrow := ⟨['<'], by decide, "--".toList, by decide, by decide⟩
  refine ⟨m, by decide +kernel, rfl, hhead, ?_⟩
  rintro ⟨hsource, -⟩
  exact absurd hsource (by decide)

end Reader

end UmlText
