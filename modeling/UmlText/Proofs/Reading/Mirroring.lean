import UmlText.Proofs.Reading.Direction

/-!
# UmlText.Proofs.Reading.Mirroring

**A relationship line read from the other side.** A mirror turns an arrow around: its characters
come in the opposite order, and `<` and `>` change places. An arrow that does not carry a closed or
a dotted head at both of its ends means in the mirror what it meant before, with its ends exchanged
(`classifyArrow_mirror`). A line with exchanged operands and a mirrored arrow therefore records the
same relationship; only an association, which has no direction, is recorded the other way round.

What is written at the left end of an arrow is told from the pieces of the arrow alone (`Decorates`),
and the right end is the left end of the mirror (`right_ofArrow?`). So both ends of a recorded
relationship are decorated with exactly what is written at them (`decorates_classifyArrow`).
-/

namespace UmlText

universe u

/-! ### Mirrors -/

namespace Text

/-- What a character becomes in a mirror. -/
def mirrorChar : Char → Char
  | '<' => '>'
  | '>' => '<'
  | c => c

/-- A text in a mirror. -/
def mirror (cs : List Char) : List Char := (cs.map mirrorChar).reverse

theorem mirrorChar_mirrorChar (c : Char) : mirrorChar (mirrorChar c) = c := by
  by_cases hleft : c = '<'
  · rw [hleft]; rfl
  · by_cases hright : c = '>'
    · rw [hright]; rfl
    · simp [mirrorChar]

theorem mirror_mirror (cs : List Char) : mirror (mirror cs) = cs := by
  have hid : mirrorChar ∘ mirrorChar = id := funext mirrorChar_mirrorChar
  rw [mirror, mirror, List.map_reverse, List.reverse_reverse, List.map_map, hid, List.map_id]

/-- What is in a text is in its mirror as in the mirror. -/
theorem infix_mirror {pattern cs : List Char} (h : pattern <:+: cs) :
    mirror pattern <:+: mirror cs :=
  List.reverse_infix.2 (h.map mirrorChar)

theorem occursIn_mirror (pattern cs : List Char) :
    occursIn (mirror pattern) (mirror cs) = occursIn pattern cs := by
  rw [Bool.eq_iff_iff, occursIn_iff, occursIn_iff]
  refine ⟨fun h => ?_, infix_mirror⟩
  have hback := infix_mirror h
  rwa [mirror_mirror, mirror_mirror] at hback

end Text

open Text (mirror mirrorChar occursIn occursIn_iff occursIn_mirror)

/-- An arrow turned around. -/
def mirrorArrow (arrow : String) : String := String.ofList (mirror arrow.toList)

/-- A relationship line with its operands exchanged and its arrow turned around. -/
def Line.RelationshipLine.mirror (parts : Line.RelationshipLine) : Line.RelationshipLine where
  left := parts.right
  leftMultiplicity := parts.rightMultiplicity
  arrow := mirrorArrow parts.arrow
  rightMultiplicity := parts.leftMultiplicity
  right := parts.left
  label := parts.label

/-- A blueprint that is read from its target. -/
def Blueprint.reverse (b : Blueprint) : Blueprint :=
  { b with source := b.target, target := b.source, end1 := b.end2, end2 := b.end1 }

namespace ArrowMeaning

/-- The meaning of an arrow that is turned around between exchanged operands. An association is
never swapped; of every other relationship the source is on the other side now. -/
def mirror (m : ArrowMeaning) : ArrowMeaning :=
  { m with
    swapped := if m.kind = .association then m.swapped else !m.swapped
    left := m.right
    right := m.left }

/-- Arrows with a closed or a dotted head at both ends. -/
def TwoHeaded (arrow : String) : Prop :=
  ∃ heads ∈ [("<|--", "--|>"), ("<|..", "..|>"), ("<..", "..>")],
    occursIn heads.1.toList arrow.toList ∧ occursIn heads.2.toList arrow.toList

instance (arrow : String) : Decidable (TwoHeaded arrow) :=
  inferInstanceAs (Decidable (∃ heads ∈ [("<|--", "--|>"), ("<|..", "..|>"), ("<..", "..>")],
    occursIn heads.1.toList arrow.toList ∧ occursIn heads.2.toList arrow.toList))

/-- A label without an include or extend stereotype. -/
def Unmarked (label : Option String) : Prop :=
  ∀ text ∈ label, ∀ mark ∈ ["<<include>>", "<<extend>>"],
    occursIn mark.toList text.toList = false

/-! ### Arrows -/

theorem isPlainLine_mirror (arrow : List Char) :
    isPlainLine (Text.mirror arrow) = isPlainLine arrow := by
  have hall : ∀ c, c = '-' ∨ c = '.' →
      (Text.mirror arrow).all (· = c) = arrow.all (· = c) := by
    intro c hc
    rw [Text.mirror, List.all_reverse, List.all_map]
    congr 1
    funext d
    have hiff : mirrorChar d = c ↔ d = c := by
      unfold mirrorChar
      rcases hc with rfl | rfl <;> split <;> simp
    exact decide_eq_decide.2 hiff
  have hlength : (Text.mirror arrow).length = arrow.length := by simp [Text.mirror]
  rw [isPlainLine, isPlainLine, hlength, hall '-' (.inl rfl), hall '.' (.inr rfl)]

/-- An arrow in the mirror has a piece where the arrow has the mirrored piece. -/
theorem occursIn_mirrored (piece arrow : List Char) :
    occursIn piece (Text.mirror arrow) = occursIn (Text.mirror piece) arrow := by
  rw [← occursIn_mirror (Text.mirror piece) arrow, Text.mirror_mirror]

/-- The pieces of arrows in the mirror. -/
theorem mirror_pieces :
    Text.mirror "<|--".toList = "--|>".toList ∧ Text.mirror "--|>".toList = "<|--".toList ∧
      Text.mirror "<|..".toList = "..|>".toList ∧ Text.mirror "..|>".toList = "<|..".toList ∧
      Text.mirror "*--".toList = "--*".toList ∧ Text.mirror "--*".toList = "*--".toList ∧
      Text.mirror "o--".toList = "--o".toList ∧ Text.mirror "--o".toList = "o--".toList ∧
      Text.mirror "-->".toList = "<--".toList ∧ Text.mirror "<--".toList = "-->".toList ∧
      Text.mirror "..>".toList = "<..".toList ∧ Text.mirror "<..".toList = "..>".toList := by
  decide

/-! ### Decorations -/

/-- An arrow with one of some pieces. -/
def HasAny (pieces : List String) (arrow : List Char) : Prop :=
  ∃ piece ∈ pieces, occursIn piece.toList arrow

/-- The heads of generalizations and realizations. -/
def closedHeads : List String := ["<|--", "--|>", "<|..", "..|>"]

/-- The marks of a composition at either end. -/
def filledDiamonds : List String := ["*--", "--*"]

/-- The marks of a shared aggregation at either end. -/
def hollowDiamonds : List String := ["o--", "--o"]

/-- The heads of dependencies. -/
def dottedHeads : List String := ["..>", "<.."]

/-- **The decoration that is written at the left end of an arrow**: a diamond or an open head there,
unless an earlier rule applies to the arrow. An open head does not count beside a dotted one, except
at participants of use case diagrams. An arrow gives no multiplicity. The decoration at the right
end of an arrow is the one at the left end of its mirror. -/
structure Decorates (arrow : List Char) (participants : Bool) (e : EndSpec) : Prop where
  composite_iff : e.aggregation = .composite ↔
    occursIn "*--".toList arrow ∧ ¬ HasAny closedHeads arrow
  shared_iff : e.aggregation = .shared ↔
    occursIn "o--".toList arrow ∧ ¬ HasAny closedHeads arrow ∧ ¬ HasAny filledDiamonds arrow
  navigable_iff : e.navigable ↔
    occursIn "<--".toList arrow ∧ ¬ HasAny closedHeads arrow ∧ ¬ HasAny filledDiamonds arrow ∧
      ¬ HasAny hollowDiamonds arrow ∧ (HasAny dottedHeads arrow → participants)
  multiplicity_eq : e.multiplicity = none

theorem hasAny_pair {first second : String} {arrow : List Char} : HasAny [first, second] arrow ↔
    (occursIn first.toList arrow || occursIn second.toList arrow) = true := by
  simp [HasAny]

theorem hasAny_closedHeads {arrow : List Char} : HasAny closedHeads arrow ↔
    (occursIn "<|--".toList arrow || occursIn "--|>".toList arrow) = true ∨
      (occursIn "<|..".toList arrow || occursIn "..|>".toList arrow) = true := by
  simp [HasAny, closedHeads, or_assoc]

theorem aggregation_aggregatedIf {marked : Bool} {a b : Aggregation} (hb : b ≠ .none) :
    (aggregatedIf marked a).aggregation = b ↔ marked ∧ a = b := by
  cases marked
  · exact iff_of_false hb.symm nofun
  · exact (and_iff_right rfl).symm

theorem navigable_aggregatedIf (marked : Bool) (a : Aggregation) :
    (aggregatedIf marked a).navigable = false := by
  cases marked <;> rfl

theorem multiplicity_aggregatedIf (marked : Bool) (a : Aggregation) :
    (aggregatedIf marked a).multiplicity = none := by
  cases marked <;> rfl

namespace Decorates

variable {arrow : List Char} {participants : Bool}

/-- A closed head leaves an end plain. -/
theorem of_closed (h : HasAny closedHeads arrow) : Decorates arrow participants {} where
  composite_iff := iff_of_false nofun fun hmark => hmark.2 h
  shared_iff := iff_of_false nofun fun hmark => hmark.2.1 h
  navigable_iff := iff_of_false nofun fun hmark => hmark.2.1 h
  multiplicity_eq := rfl

/-- Else, filled diamonds mark the ends that they are at. -/
theorem of_filled (hclosed : ¬ HasAny closedHeads arrow) (h : HasAny filledDiamonds arrow) :
    Decorates arrow participants (aggregatedIf (occursIn "*--".toList arrow) .composite) where
  composite_iff := by simp [aggregation_aggregatedIf, hclosed]
  shared_iff := by simp [aggregation_aggregatedIf, h]
  navigable_iff := by simp [navigable_aggregatedIf, h]
  multiplicity_eq := multiplicity_aggregatedIf _ _

/-- Else, hollow diamonds do. -/
theorem of_hollow (hclosed : ¬ HasAny closedHeads arrow) (hfilled : ¬ HasAny filledDiamonds arrow)
    (h : HasAny hollowDiamonds arrow) :
    Decorates arrow participants (aggregatedIf (occursIn "o--".toList arrow) .shared) where
  composite_iff := by
    rw [aggregation_aggregatedIf (by decide)]
    exact iff_of_false nofun fun hmark => hfilled ⟨"*--", List.mem_cons_self, hmark.1⟩
  shared_iff := by simp [aggregation_aggregatedIf, hclosed, hfilled]
  navigable_iff := by simp [navigable_aggregatedIf, h]
  multiplicity_eq := multiplicity_aggregatedIf _ _

/-- An end without a diamond is navigable if an open head that counts is at it. -/
theorem of_undiamonded (hclosed : ¬ HasAny closedHeads arrow)
    (hfilled : ¬ HasAny filledDiamonds arrow) (hhollow : ¬ HasAny hollowDiamonds arrow)
    {navigable : Bool} (h : navigable ↔
      occursIn "<--".toList arrow ∧ (HasAny dottedHeads arrow → participants)) :
    Decorates arrow participants { navigable } where
  composite_iff := iff_of_false nofun fun hmark => hfilled ⟨"*--", List.mem_cons_self, hmark.1⟩
  shared_iff := iff_of_false nofun fun hmark => hhollow ⟨"o--", List.mem_cons_self, hmark.1⟩
  navigable_iff := by simp [hclosed, hfilled, hhollow, h]
  multiplicity_eq := rfl

end Decorates

/-- The left end of an arrow is decorated with what is written at it. -/
theorem decorates_left {arrow : List Char} {left right : ElementKind} {m : ArrowMeaning}
    (h : ofArrow? arrow left right = some m) :
    Decorates arrow (left.isParticipant || right.isParticipant) m.left := by
  unfold ofArrow? at h
  dsimp only at h
  split at h
  · next hextends =>
      cases h
      exact .of_closed (hasAny_closedHeads.2 (.inl hextends))
  split at h
  · next hrealizes =>
      cases h
      exact .of_closed (hasAny_closedHeads.2 (.inr hrealizes))
  next hextends hrealizes =>
  have hclosed : ¬ HasAny closedHeads arrow := fun hhead =>
    (hasAny_closedHeads.1 hhead).elim hextends hrealizes
  split at h
  · next hfilled =>
      cases h
      exact .of_filled hclosed (hasAny_pair.2 hfilled)
  next hfilled =>
  replace hfilled : ¬ HasAny filledDiamonds arrow := fun hmark => hfilled (hasAny_pair.1 hmark)
  split at h
  · next hhollow =>
      cases h
      exact .of_hollow hclosed hfilled (hasAny_pair.2 hhollow)
  next hhollow =>
  replace hhollow : ¬ HasAny hollowDiamonds arrow := fun hmark => hhollow (hasAny_pair.1 hmark)
  split at h
  · split at h
    · next hdependency =>
        cases h
        obtain ⟨hothers, hdotted⟩ := (Bool.and_eq_true _ _).mp hdependency
        refine .of_undiamonded hclosed hfilled hhollow (iff_of_false nofun fun hmark => ?_)
        simp [hmark.2 (hasAny_pair.2 hdotted)] at hothers
    · next hdirected =>
        cases h
        refine .of_undiamonded hclosed hfilled hhollow (and_iff_left fun hdotted => ?_).symm
        rw [hasAny_pair.1 hdotted, Bool.and_true, Bool.not_eq_true', Bool.not_eq_false] at hdirected
        exact hdirected
  next hunheaded =>
  have hplain : Decorates arrow (left.isParticipant || right.isParticipant) {} :=
    .of_undiamonded hclosed hfilled hhollow
      (iff_of_false nofun fun hmark => hunheaded (by rw [hmark.1, Bool.or_true]))
  split at h
  · cases h
    exact hplain
  split at h
  · cases h
    exact hplain
  · cases h

/-- The right end of an arrow is the left end of its mirror. -/
theorem right_ofArrow? (arrow : List Char) (left right : ElementKind) :
    (ofArrow? arrow left right).map ArrowMeaning.right
      = (ofArrow? (Text.mirror arrow) right left).map ArrowMeaning.left := by
  simp only [ofArrow?, occursIn_mirrored, mirror_pieces, isPlainLine_mirror, Bool.or_comm]
  repeat' split
  all_goals simp only [Option.map_some, Option.map_none]

/-- **Every end is decorated with what is written at it.** -/
theorem decorates_ofArrow? {arrow : List Char} {left right : ElementKind} {m : ArrowMeaning}
    (h : ofArrow? arrow left right = some m) :
    Decorates arrow (left.isParticipant || right.isParticipant) m.left ∧
      Decorates (Text.mirror arrow) (left.isParticipant || right.isParticipant) m.right := by
  refine ⟨decorates_left h, ?_⟩
  have hright := right_ofArrow? arrow left right
  rw [h] at hright
  obtain ⟨mirrored, hmirrored, hend⟩ := Option.map_eq_some_iff.1 hright.symm
  rw [← hend, Bool.or_comm]
  exact decorates_left hmirrored

/-- The operands of an association stay as they are written. -/
theorem swapped_of_association {arrow : List Char} {left right : ElementKind} {m : ArrowMeaning}
    (h : ofArrow? arrow left right = some m) (hkind : m.kind = .association) :
    m.swapped = false := by
  unfold ofArrow? at h
  dsimp only at h
  repeat' split at h
  all_goals cases h
  all_goals first
    | rfl
    | cases hkind

/-- A head at one end only is at the other end in the mirror. -/
theorem mirror_directed {kind : RelationshipKind} (hkind : kind ≠ .association)
    {here there : Bool} (hone : here → there = false) (hany : (here || there) = true) :
    mirror { kind, swapped := here } = { kind, swapped := there } := by
  have hother : there = !here := by
    cases here
    · simpa using hany
    · exact hone rfl
  simp [mirror, hkind, hother]

/-- **The rules of arrows are symmetric**, but for arrows with two heads. -/
theorem ofArrow?_mirror {arrow : String} (h : ¬ TwoHeaded arrow) (left right : ElementKind) :
    ofArrow? (Text.mirror arrow.toList) right left
      = (ofArrow? arrow.toList left right).map mirror := by
  have hone : ∀ heads ∈ [("<|--", "--|>"), ("<|..", "..|>"), ("<..", "..>")],
      occursIn heads.1.toList arrow.toList → occursIn heads.2.toList arrow.toList = false :=
    fun heads hmem hfirst => Bool.eq_false_iff.2 fun hsecond => h ⟨heads, hmem, hfirst, hsecond⟩
  have hdotted := hone ("<..", "..>") (by simp)
  simp only [ofArrow?, occursIn_mirrored, mirror_pieces, isPlainLine_mirror]
  -- The conditions of the mirrored rules are those of the rules, with both pieces exchanged.
  rw [Bool.or_comm (occursIn "--|>".toList arrow.toList),
    Bool.or_comm (occursIn "..|>".toList arrow.toList),
    Bool.or_comm (occursIn "--*".toList arrow.toList),
    Bool.or_comm (occursIn "--o".toList arrow.toList),
    Bool.or_comm (occursIn "-->".toList arrow.toList),
    Bool.or_comm (occursIn "..>".toList arrow.toList), Bool.or_comm right.isParticipant]
  split
  · next hany =>
      exact congrArg some (mirror_directed (by decide) (hone ("<|--", "--|>") (by simp)) hany).symm
  split
  · next hany =>
      exact congrArg some (mirror_directed (by decide) (hone ("<|..", "..|>") (by simp)) hany).symm
  split
  · rfl
  split
  · rfl
  split
  · split
    · next hany =>
        rw [Bool.and_eq_true] at hany
        exact congrArg some (mirror_directed (by decide) hdotted hany.2).symm
    · rfl
  split
  · next hany => exact congrArg some (mirror_directed (by decide) hdotted hany).symm
  split <;> rfl

/-! ### Labels -/

/-- A label without a stereotype only gives its text. -/
theorem withLabel_of_unmarked {label : Option String} (h : Unmarked label) (m : ArrowMeaning) :
    m.withLabel label = { m with label := cleanLabel label } := by
  have hnone : (cleanLabel label).bind stereotype? = none := by
    refine Option.bind_eq_none_iff.2 fun text hclean => ?_
    obtain ⟨htrimmed, -⟩ := Option.filter_eq_some_iff.1 hclean
    obtain ⟨raw, hraw, rfl⟩ := Option.map_eq_some_iff.1 htrimmed
    -- What is in the trimmed label is in the label.
    have hmark : ∀ mark ∈ ["<<include>>", "<<extend>>"],
        occursIn mark.toList (Text.trim raw.toList) = false := by
      intro mark hmark
      refine Bool.eq_false_iff.2 fun hoccurs => ?_
      have hlabel := (occursIn_iff.1 hoccurs).trans (Text.infix_trim raw.toList)
      exact absurd (occursIn_iff.2 hlabel) (Bool.eq_false_iff.1 (h raw hraw mark hmark))
    have htext : (String.ofList (Text.trim raw.toList)).toList = Text.trim raw.toList :=
      String.toList_ofList
    rw [stereotype?, htext, hmark "<<include>>" (by simp), hmark "<<extend>>" (by simp)]
    rfl
  simp [withLabel, hnone]

theorem mirror_withLabel {label : Option String} (h : Unmarked label) (m : ArrowMeaning) :
    m.mirror.withLabel label = (m.withLabel label).mirror := by
  rw [withLabel_of_unmarked h, withLabel_of_unmarked h]
  rfl

end ArrowMeaning

open ArrowMeaning (TwoHeaded Unmarked)

/-- A mirrored arrow between exchanged operands has the mirrored meaning. -/
theorem classifyArrow_mirror {arrow : String} (harrow : ¬ TwoHeaded arrow) {label : Option String}
    (hlabel : Unmarked label) (left right : ElementKind) :
    classifyArrow (mirrorArrow arrow) right left label
      = (classifyArrow arrow left right label).map ArrowMeaning.mirror := by
  unfold classifyArrow mirrorArrow
  rw [String.toList_ofList, ArrowMeaning.ofArrow?_mirror harrow, Option.map_map, Option.map_map]
  congr 1
  funext m
  exact ArrowMeaning.mirror_withLabel hlabel m

theorem swapped_of_classifyArrow {arrow : String} {left right : ElementKind}
    {label : Option String} {m : ArrowMeaning} (h : classifyArrow arrow left right label = some m)
    (hkind : m.kind = .association) : m.swapped = false := by
  obtain ⟨plain, hplain, rfl⟩ := Option.map_eq_some_iff.1 h
  rw [ArrowMeaning.swapped_withLabel]
  rcases plain.kind_withLabel label with hlabel | hlabel | hlabel
  · exact ArrowMeaning.swapped_of_association hplain (hlabel.symm.trans hkind)
  · rw [hlabel] at hkind; cases hkind
  · rw [hlabel] at hkind; cases hkind

/-- A label does not touch the ends. -/
theorem decorates_classifyArrow {arrow : String} {left right : ElementKind}
    {label : Option String} {m : ArrowMeaning}
    (h : classifyArrow arrow left right label = some m) :
    ArrowMeaning.Decorates arrow.toList (left.isParticipant || right.isParticipant) m.left ∧
      ArrowMeaning.Decorates (mirror arrow.toList) (left.isParticipant || right.isParticipant)
        m.right := by
  obtain ⟨plain, hplain, rfl⟩ := Option.map_eq_some_iff.1 h
  have hends : (plain.withLabel label).left = plain.left ∧
      (plain.withLabel label).right = plain.right := by
    unfold ArrowMeaning.withLabel
    dsimp only
    split <;> exact ⟨rfl, rfl⟩
  rw [hends.1, hends.2]
  exact ArrowMeaning.decorates_ofArrow? hplain

namespace Reader

/-! ### Blueprints -/

/-- **The other side of a line.** What is recorded for the mirrored line between exchanged operands
is what is recorded for the line, but an association is recorded from its other end. -/
theorem blueprint?_mirror {parts : Line.RelationshipLine} (harrow : ¬ TwoHeaded parts.arrow)
    (hlabel : Unmarked parts.label) (left right : ElementId × ElementKind) :
    blueprint? parts.mirror right left
      = (blueprint? parts left right).map fun b =>
          if b.kind = .association then b.reverse else b := by
  unfold blueprint?
  simp only [Line.RelationshipLine.mirror, classifyArrow_mirror harrow hlabel]
  cases hm : classifyArrow parts.arrow left.2 right.2 parts.label with
  | none => rfl
  | some m =>
      simp only [Option.map_some, Option.some.injEq]
      by_cases hkind : m.kind = .association
      · have hswapped := swapped_of_classifyArrow hm hkind
        simp [ArrowMeaning.mirror, hkind, hswapped, Blueprint.reverse]
      · cases hswapped : m.swapped <;> simp [ArrowMeaning.mirror, hkind, hswapped]

/-- **Ends stay with their operands.** The source and the target of a blueprint are the operands in
the order that the arrow gives them, each with the decoration of its end of the arrow and with the
multiplicity that is written at it. -/
def Recording.KeepsEnds (made : Recording) (meaning : ArrowMeaning) : Prop :=
  let leftEnd := (made.left.1, { meaning.left with multiplicity := made.parts.leftMultiplicity })
  let rightEnd :=
    (made.right.1, { meaning.right with multiplicity := made.parts.rightMultiplicity })
  ((made.blueprint.source, made.blueprint.end1), (made.blueprint.target, made.blueprint.end2))
    = if meaning.swapped then (rightEnd, leftEnd) else (leftEnd, rightEnd)

theorem exists_keepsEnds {made : Recording}
    (h : blueprint? made.parts made.left made.right = some made.blueprint) :
    ∃ meaning, classifyArrow made.parts.arrow made.left.2 made.right.2 made.parts.label
        = some meaning ∧ made.KeepsEnds meaning := by
  obtain ⟨meaning, hmeaning, hmade⟩ := Option.map_eq_some_iff.1 h
  refine ⟨meaning, hmeaning, ?_⟩
  unfold Recording.KeepsEnds
  rw [← hmade]
  cases meaning.swapped <;> rfl

variable {σ : Type u} [ModelStore σ]

/-- What is recorded is read off a line. -/
theorem exists_line_of_mem_recordings {r : Reader σ} {lines : List Text.Line} {made : Recording}
    (h : made ∈ r.recordings lines) :
    ∃ line ∈ lines, Line.relationshipLine? line.text = some made.parts := by
  obtain ⟨above, line, below, rfl, hmade⟩ := exists_recording?_of_mem_recordings h
  exact ⟨line, by simp, (LineShape.of_eq_relationship (recording?_eq_some hmade).1).2⟩

/-- **Mirroring an arrow mirrors the relationship.** Unless an arrow has closed or dotted heads at
both ends, or its label has a stereotype, its mirror between exchanged operands has the same kind
and label and exchanged ends, or both have no meaning. So the line read from its other side gives
the same blueprint, and an association gives the reverse one. And whatever a text says, each of its
blueprints is read off one of its lines, and each end of it carries exactly the decoration that the
arrow has at its operand and the multiplicity that is written there. -/
theorem mirrored_lines_mirror (store : σ) (root : ElementId) (source : List Char) :
    (∀ (arrow : String) (label : Option String), ¬ TwoHeaded arrow → Unmarked label →
        ∀ left right, classifyArrow (mirrorArrow arrow) right left label
          = (classifyArrow arrow left right label).map ArrowMeaning.mirror) ∧
      (∀ parts : Line.RelationshipLine, ¬ TwoHeaded parts.arrow → Unmarked parts.label →
        ∀ left right, blueprint? parts.mirror right left
          = (blueprint? parts left right).map fun b =>
              if b.kind = .association then b.reverse else b) ∧
      let lines := Text.locatedLines source
      let made := ({ store, root } : Reader σ).recordings lines
      (readText store root source).blueprints = made.map Recording.blueprint ∧
        ∀ m ∈ made, (∃ line ∈ lines, Line.relationshipLine? line.text = some m.parts) ∧
          let participants := m.left.2.isParticipant || m.right.2.isParticipant
          ∃ meaning, classifyArrow m.parts.arrow m.left.2 m.right.2 m.parts.label = some meaning ∧
            ArrowMeaning.Decorates m.parts.arrow.toList participants meaning.left ∧
            ArrowMeaning.Decorates (mirror m.parts.arrow.toList) participants meaning.right ∧
            m.KeepsEnds meaning := by
  refine ⟨fun arrow label harrow hlabel left right => ?_, fun parts harrow hlabel left right => ?_,
    ?_, fun m hm => ⟨exists_line_of_mem_recordings hm, ?_⟩⟩
  · exact classifyArrow_mirror harrow hlabel left right
  · exact blueprint?_mirror harrow hlabel left right
  · exact (blueprints_readLines _ (Text.locatedLines source)).trans (List.nil_append _)
  · obtain ⟨meaning, hmeaning, hends⟩ := exists_keepsEnds (blueprint?_of_mem_recordings hm)
    obtain ⟨hleft, hright⟩ := decorates_classifyArrow hmeaning
    exact ⟨meaning, hmeaning, hleft, hright, hends⟩

/-- A composition with a multiplicity at each operand, and its mirror. The diamond and the first
multiplicity stay with the whole. -/
theorem mirrored_lines_mirror_composition :
    let source := "class Order\nclass Item\nOrder \"1\" *-- \"0..*\" Item : lists".toList
    let made := ({ store := .new, root := Workspace.root : Reader Workspace }).recordings
      (Text.locatedLines source)
    ∃ m ∈ made, ¬ TwoHeaded m.parts.arrow ∧ Unmarked m.parts.label ∧
      m.parts.mirror = ⟨"Item", some "0..*", "--*", some "1", "Order", some "lists"⟩ ∧
      classifyArrow "--*" m.right.2 m.left.2 m.parts.label = some {
        kind := .association, right := { aggregation := .composite }, label := some "lists" } ∧
      blueprint? m.parts.mirror m.right m.left = some m.blueprint.reverse ∧
      m.blueprint.end1 = { aggregation := .composite, multiplicity := some "1" } ∧
      m.blueprint.end2 = { multiplicity := some "0..*" } ∧
      ∃ meaning, meaning.left.aggregation = .composite ∧ m.KeepsEnds meaning := by
  intro source made
  let m : Recording := {
    parts := ⟨"Order", some "1", "*--", some "0..*", "Item", some "lists"⟩
    left := (⟨1⟩, .umlClass)
    right := (⟨2⟩, .umlClass)
    blueprint := {
      kind := .association, source := ⟨1⟩, target := ⟨2⟩, label := some "lists"
      end1 := { aggregation := .composite, multiplicity := some "1" }
      end2 := { multiplicity := some "0..*" } } }
  have hm : m ∈ made := by decide +kernel
  have harrow : ¬ TwoHeaded m.parts.arrow := by decide
  have hlabel : Unmarked m.parts.label := by
    intro text htext
    obtain rfl := Option.some.inj htext
    decide
  have hmirror : m.parts.mirror
      = ⟨"Item", some "0..*", "--*", some "1", "Order", some "lists"⟩ := by decide
  obtain ⟨hmeaning, hblueprint, -, hends⟩ :=
    mirrored_lines_mirror Workspace.new Workspace.root source
  obtain ⟨-, meaning, -, hleft, -, hkeeps⟩ := hends m hm
  have hcomposite : meaning.left.aggregation = .composite := by
    refine hleft.composite_iff.2 ⟨by decide, ?_⟩
    rintro ⟨piece, hpiece, hoccurs⟩
    revert piece
    decide
  refine ⟨m, hm, harrow, hlabel, hmirror, ?_, ?_, rfl, rfl, meaning, hcomposite, hkeeps⟩
  · exact (hmeaning "*--" (some "lists") harrow hlabel .umlClass .umlClass).trans (by decide)
  · exact (hblueprint m.parts harrow hlabel m.left m.right).trans (by decide)

end Reader

end UmlText
