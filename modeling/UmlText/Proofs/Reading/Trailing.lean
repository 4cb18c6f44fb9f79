import Mathlib.Data.List.TakeWhile
import UmlText.Proofs.Exchange.Members

/-!
# UmlText.Proofs.Reading.Trailing

**Blanks behind a member make no difference.** The reader trims a line before it looks at it. A line
that is a member as it stands is the same member when it is trimmed: each recognizer leaves the
blanks at the end of a line in its rest, and what the last one finds there is trimmed anyway
(`member?_trim`).
-/

namespace UmlText

open Text (isBlank isGap trim trimEnd)

namespace Text

/-- A text is cut in its front if it is not cut behind. -/
theorem cutLast?_append_of_not_mem {c : Char} (cs : List Char) {rest : List Char} (h : c ∉ rest) :
    cutLast? c (cs ++ rest)
      = (cutLast? c cs).map fun (before, after) => (before, after ++ rest) := by
  induction cs with
  | nil => simp [cutLast?, cutLast?_eq_none h]
  | cons x cs ih =>
      simp only [List.cons_append, cutLast?, ih]
      cases cutLast? c cs with
      | some cut => rfl
      | none =>
          simp only [Option.map_none]
          split <;> rfl

/-- A text whose last character is not blank. -/
def Solid (cs : List Char) : Prop := ∃ c ∈ cs.getLast?, isBlank c = false

theorem Solid.of_append {as bs : List Char} (h : Solid (as ++ bs)) (hne : bs ≠ []) : Solid bs := by
  obtain ⟨c, hc, hblank⟩ := h
  rw [List.getLast?_append_of_ne_nil _ hne] at hc
  exact ⟨c, hc, hblank⟩

theorem Solid.exists_mem {cs : List Char} (h : Solid cs) : ∃ c ∈ cs, isBlank c = false := by
  obtain ⟨c, hc, hblank⟩ := h
  exact ⟨c, List.mem_of_getLast? hc, hblank⟩

theorem solid_trimEnd {cs : List Char} (h : trimEnd cs ≠ []) : Solid (trimEnd cs) := by
  have hlast : (trimEnd cs).getLast? = (trimStart cs.reverse).head? := by
    rw [trimEnd, List.getLast?_reverse, trimStart]
  cases hhead : (trimStart cs.reverse).head? with
  | none =>
      rw [hhead, List.getLast?_eq_none_iff] at hlast
      exact absurd hlast h
  | some c => exact ⟨c, hlast.trans hhead, not_isBlank_of_mem_head?_trimStart _ c hhead⟩

end Text

/-- A name has no blank ends. -/
theorem Writing.ReadableName.trimmed {name : String} (h : ReadableName name) :
    Text.Trimmed name.toList :=
  ⟨h.head, fun c hc => isBlank_of_isIdentifierChar (h.chars c (List.mem_of_getLast? hc))⟩

namespace Line

open Text (Solid)

variable {blanks : List Char}

/-! ### Runs, words and gaps -/

theorem run?_eq_some {p : Char → Bool} {cs word rest : List Char}
    (h : run? p cs = some (word, rest)) : cs = word ++ rest ∧ word ≠ [] ∧ ∀ c ∈ word, p c := by
  simp only [run?] at h
  split at h
  · cases h
  · next hword =>
      cases h
      exact ⟨List.takeWhile_append_dropWhile.symm, by simpa using hword,
        fun c hc => List.mem_takeWhile_imp hc⟩

/-- A run that meets a character outside its class ends before the blanks. -/
theorem dropWhile_append_of_exists {p : Char → Bool} {cs : List Char} (h : ∃ c ∈ cs, p c = false)
    (rest : List Char) : (cs ++ rest).dropWhile p = cs.dropWhile p ++ rest := by
  have hne : ¬ (cs.dropWhile p).isEmpty := by
    rw [List.isEmpty_iff, List.dropWhile_eq_nil_iff]
    obtain ⟨c, hc, hp⟩ := h
    exact fun hall => by simp [hall c hc] at hp
  rw [List.dropWhile_append, if_neg hne]

theorem run?_append_blanks {p : Char → Bool} (hp : ∀ c, p c → isBlank c = false)
    (hb : ∀ c ∈ blanks, isBlank c) (cs : List Char) :
    run? p (cs ++ blanks) = (run? p cs).map fun (word, rest) => (word, rest ++ blanks) := by
  have hend : blanks.takeWhile p = [] ∧ blanks.dropWhile p = blanks := by
    cases blanks with
    | nil => exact ⟨rfl, rfl⟩
    | cons c rest =>
        have hc : p c = false := Bool.eq_false_iff.2 fun h => by
          simpa [hp c h] using hb c List.mem_cons_self
        simp [hc]
  have htake : (cs ++ blanks).takeWhile p = cs.takeWhile p := by
    rw [List.takeWhile_append, hend.1]
    split
    · next hall => rw [List.append_nil, (List.takeWhile_prefix p).eq_of_length hall]
    · rfl
  have hdrop : (cs ++ blanks).dropWhile p = cs.dropWhile p ++ blanks := by
    rw [List.dropWhile_append, hend.2]
    split
    · next hempty => rw [List.isEmpty_iff.1 hempty, List.nil_append]
    · rfl
  simp only [run?, htake, hdrop]
  split <;> rfl

/-- A word without blanks is not read into the blanks. -/
theorem isPrefixOf?_append_blanks {word : List Char} (hword : ∀ c ∈ word, isBlank c = false)
    (hb : ∀ c ∈ blanks, isBlank c) (cs : List Char) :
    word.isPrefixOf? (cs ++ blanks) = (word.isPrefixOf? cs).map (· ++ blanks) := by
  induction word generalizing cs with
  | nil => simp [List.isPrefixOf?]
  | cons w word ih =>
      have hrest := ih fun c hc => hword c (List.mem_cons_of_mem _ hc)
      cases cs with
      | nil =>
          cases blanks with
          | nil => rfl
          | cons c rest =>
              have hne : w ≠ c := by
                rintro rfl
                simpa [hword w List.mem_cons_self] using hb w List.mem_cons_self
              simp [List.isPrefixOf?, hne]
      | cons c rest =>
          simp only [List.cons_append, List.isPrefixOf?]
          split
          · exact hrest rest
          · rfl

theorem word?_append_blanks {word : String} (hword : ∀ c ∈ word.toList, isBlank c = false)
    (hb : ∀ c ∈ blanks, isBlank c) (cs : List Char) :
    word? word (cs ++ blanks) = (word? word cs).map (· ++ blanks) :=
  isPrefixOf?_append_blanks hword hb cs

theorem exists_not_isGap {cs : List Char} (h : Solid cs) : ∃ c ∈ cs, isGap c = false := by
  obtain ⟨c, hc, hblank⟩ := h.exists_mem
  exact ⟨c, hc, Writing.isGap_eq_false_of_isBlank hblank⟩

theorem skipGap_append_blanks {cs : List Char} (h : Solid cs) (blanks : List Char) :
    skipGap (cs ++ blanks) = skipGap cs ++ blanks :=
  dropWhile_append_of_exists (exists_not_isGap h) blanks

theorem gap?_append_blanks {cs : List Char} (h : Solid cs) (blanks : List Char) :
    gap? (cs ++ blanks) = (gap? cs).map (· ++ blanks) := by
  have htake : (cs ++ blanks).takeWhile isGap = cs.takeWhile isGap := by
    rw [List.takeWhile_append]
    split
    · next hall =>
        obtain ⟨c, hc, hgap⟩ := exists_not_isGap h
        rw [← (List.takeWhile_prefix isGap).eq_of_length hall] at hc
        simp [List.mem_takeWhile_imp hc] at hgap
    · rfl
  simp only [gap?, run?, htake, dropWhile_append_of_exists (exists_not_isGap h) blanks]
  split <;> rfl

/-! ### Visibilities -/

/-- What is left behind a visibility, with and without blanks at the end: the same but for the
blanks, or nothing but blanks. -/
inductive Trailing (blanks : List Char) :
    Option (Visibility × List Char) → Option (Visibility × List Char) → Prop
  | none : Trailing blanks none none
  | some (v : Visibility) (rest : List Char) :
      Trailing blanks (some (v, rest)) (some (v, rest ++ blanks))
  | blank (v : Visibility) (rest : List Char) (read : Option (Visibility × List Char))
      (h : ∀ c ∈ rest, isBlank c) : Trailing blanks read (some (v, rest))

theorem Trailing.orElse {a a' b b' : Option (Visibility × List Char)} (ha : Trailing blanks a a')
    (hb : Trailing blanks b b') : Trailing blanks (a <|> b) (a' <|> b') := by
  cases ha with
  | none => exact hb
  | some v rest => exact .some v rest
  | blank v rest read h => exact .blank v rest _ h

theorem isBlank_of_mem_gap? {cs rest : List Char} (h : gap? cs = some rest)
    (hb : ∀ c ∈ cs, isBlank c) : ∀ c ∈ rest, isBlank c := by
  simp only [gap?, run?] at h
  split at h
  · cases h
  · obtain rfl := Option.some.inj h
    exact fun c hc => hb c (List.dropWhile_subset _ hc)

/-- Behind a keyword that ends a line, the blanks at the end are its gap. -/
theorem trailing_keyword {word : String} (hword : ∀ c ∈ word.toList, isBlank c = false)
    (hb : ∀ c ∈ blanks, isBlank c) {cs : List Char} (h : Solid cs) (v : Visibility) :
    Trailing blanks ((keyword? word cs).map (v, ·))
      ((keyword? word (cs ++ blanks)).map (v, ·)) := by
  rw [keyword?, keyword?, word?_append_blanks hword hb]
  cases hrest : word? word cs with
  | none => exact .none
  | some rest =>
      have hcs : cs = word.toList ++ rest := (List.isPrefixOf?_eq_some_iff_append_eq.1 hrest).symm
      rw [Option.map_some, Option.bind_some, Option.bind_some]
      by_cases hnil : rest = []
      · -- The keyword ends the line, so the only gap behind it is made of the blanks.
        subst hnil
        rw [List.nil_append]
        cases hgap : gap? blanks with
        | none => exact .none
        | some rest => exact .blank v rest _ (isBlank_of_mem_gap? hgap hb)
      · have hsolid : Solid rest := (hcs ▸ h).of_append hnil
        rw [gap?_append_blanks hsolid]
        cases gap? rest with
        | none => exact .none
        | some rest => exact .some v rest

theorem trailing_marker (hb : ∀ c ∈ blanks, isBlank c) {m : Char} {cs : List Char}
    (h : Solid (m :: cs)) (v : Visibility) :
    Trailing blanks (some (v, skipGap cs)) (some (v, skipGap (cs ++ blanks))) := by
  by_cases hnil : cs = []
  · subst hnil
    exact .blank v _ _ fun c hc => hb c (List.dropWhile_subset _ hc)
  · have happend : Solid ([m] ++ cs) := h
    have hsolid : Solid cs := happend.of_append hnil
    rw [skipGap_append_blanks hsolid]
    exact .some v _

/-- Without a marker in front, the keywords are tried one after the other. -/
theorem visibility?_of_not_marker {m : Char} (hmarker : m ∉ ['+', '-', '#', '~'])
    (rest : List Char) :
    visibility? (m :: rest) = ((keyword? "public" (m :: rest)).map (.pub, ·)
      <|> (keyword? "private" (m :: rest)).map (.priv, ·)
      <|> (keyword? "protected" (m :: rest)).map (.prot, ·)
      <|> (keyword? "package" (m :: rest)).map (.pkg, ·)) := by
  simp only [List.mem_cons, List.not_mem_nil, or_false, not_or] at hmarker
  unfold visibility?
  split
  case h_5 => rfl
  all_goals
    next heq => simp [(List.cons.inj heq).1] at hmarker

theorem trailing_visibility (hb : ∀ c ∈ blanks, isBlank c) {cs : List Char} (h : Solid cs) :
    Trailing blanks (visibility? cs) (visibility? (cs ++ blanks)) := by
  cases cs with
  | nil => obtain ⟨c, hc, -⟩ := h; cases hc
  | cons m rest =>
      by_cases hmarker : m ∈ ['+', '-', '#', '~']
      · simp only [List.mem_cons, List.not_mem_nil, or_false] at hmarker
        rcases hmarker with rfl | rfl | rfl | rfl
        · exact trailing_marker hb h .pub
        · exact trailing_marker hb h .priv
        · exact trailing_marker hb h .prot
        · exact trailing_marker hb h .pkg
      · rw [visibility?_of_not_marker hmarker, List.cons_append,
          visibility?_of_not_marker hmarker, ← List.cons_append]
        have hkeyword : ∀ v : Visibility, ∀ c ∈ v.keyword.toList, isBlank c = false := by
          intro v
          cases v <;> simp [Visibility.keyword, isBlank, Text.blankCodes]
        exact (trailing_keyword (hkeyword .pub) hb h .pub).orElse
          ((trailing_keyword (hkeyword .priv) hb h .priv).orElse
            ((trailing_keyword (hkeyword .prot) hb h .prot).orElse
              (trailing_keyword (hkeyword .pkg) hb h .pkg)))

/-! ### Members -/

theorem identifier?_append_blanks (hb : ∀ c ∈ blanks, isBlank c) (cs : List Char) :
    identifier? (cs ++ blanks)
      = (identifier? cs).map fun (name, rest) => (name, rest ++ blanks) :=
  run?_append_blanks (fun _ => Writing.isBlank_of_isIdentifierChar) hb cs

/-- The name of a member, behind its visibility, with what stands behind the name. -/
def front? (cs : List Char) : Option (List Char × List Char) := identifier? (visibility cs).2

/-- The front of a member is read alike with and without the blanks at the end. -/
theorem front_append_blanks (hb : ∀ c ∈ blanks, isBlank c) {cs : List Char} (h : Solid cs)
    {name rest : List Char} (hread : front? (cs ++ blanks) = some (name, rest)) :
    ∃ after, rest = after ++ blanks ∧ front? cs = some (name, after) ∧
      (visibility (cs ++ blanks)).1 = (visibility cs).1 := by
  have hrest : ∀ front, identifier? (front ++ blanks) = some (name, rest) →
      ∃ after, rest = after ++ blanks ∧ identifier? front = some (name, after) := by
    intro front hfront
    rw [identifier?_append_blanks hb] at hfront
    obtain ⟨⟨word, after⟩, hword, heq⟩ := Option.map_eq_some_iff.1 hfront
    cases heq
    exact ⟨after, rfl, hword⟩
  have htrailing := trailing_visibility hb h
  -- From here on only what the two visibilities leave behind matters.
  unfold front? visibility at *
  generalize visibility? cs = short at htrailing ⊢
  generalize visibility? (cs ++ blanks) = long at htrailing hread ⊢
  cases htrailing with
  | none =>
      obtain ⟨after, rfl, hafter⟩ := hrest cs hread
      exact ⟨after, rfl, hafter, rfl⟩
  | some v front =>
      obtain ⟨after, rfl, hafter⟩ := hrest front hread
      exact ⟨after, rfl, hafter, rfl⟩
  | blank v front _ hfront =>
      -- No name begins with a blank.
      have hnone : identifier? front = none := by
        refine run?_eq_none fun c hc => Bool.eq_false_iff.2 fun hident => ?_
        have hblank := Writing.isBlank_of_isIdentifierChar hident
        simp [hfront c (List.mem_of_mem_head? hc)] at hblank
      rw [Option.getD_some, hnone] at hread
      cases hread

theorem attribute?_append_blanks (hb : ∀ c ∈ blanks, isBlank c) {cs : List Char} (h : Solid cs)
    (hread : (front? (cs ++ blanks)).isSome) : attribute? (cs ++ blanks) = attribute? cs := by
  obtain ⟨⟨name, rest⟩, hfront⟩ := Option.isSome_iff_exists.1 hread
  obtain ⟨after, rfl, hafter, hvisibility⟩ := front_append_blanks hb h hfront
  rw [front?] at hfront hafter
  simp only [attribute?, hfront, hafter, hvisibility, Option.bind_eq_bind, Option.bind_some,
    Text.trim_append_blanks after hb]

theorem operation?_append_blanks (hb : ∀ c ∈ blanks, isBlank c) {cs : List Char} (h : Solid cs)
    (hread : (front? (cs ++ blanks)).isSome) : operation? (cs ++ blanks) = operation? cs := by
  have hopening : ∀ c ∈ "(".toList, isBlank c = false := by simp [isBlank, Text.blankCodes]
  have hclosing : ')' ∉ blanks := fun hmem => absurd (hb _ hmem) (by decide)
  obtain ⟨⟨name, rest⟩, hfront⟩ := Option.isSome_iff_exists.1 hread
  obtain ⟨after, rfl, hafter, hvisibility⟩ := front_append_blanks hb h hfront
  rw [front?] at hfront hafter
  simp only [operation?, hfront, hafter, hvisibility, Option.bind_eq_bind, Option.bind_some,
    word?_append_blanks hopening hb]
  cases word? "(" after with
  | none => rfl
  | some list =>
      rw [Option.map_some, Option.bind_some, Option.bind_some,
        Text.cutLast?_append_of_not_mem list hclosing]
      cases Text.cutLast? ')' list with
      | none => rfl
      | some cut =>
          simp only [Option.map_some, Option.bind_some, returnType?,
            Text.trim_append_blanks cut.2 hb]

/-- No member begins with a blank. -/
theorem front?_cons_of_isBlank {c : Char} (hc : isBlank c) (rest : List Char) :
    front? (c :: rest) = none := by
  have hne : ∀ d, isBlank d = false → ¬ d = c := by
    rintro d hd rfl
    simp [hc] at hd
  have hvisibility : visibility? (c :: rest) = none := by
    have hmarker : c ∉ ['+', '-', '#', '~'] := by
      intro hmem
      simp only [List.mem_cons, List.not_mem_nil, or_false] at hmem
      rcases hmem with rfl | rfl | rfl | rfl <;> exact absurd hc (by decide)
    simp [visibility?_of_not_marker hmarker, keyword?, word?, List.isPrefixOf?,
      hne 'p' (by decide)]
  have hident : identifier? (c :: rest) = none := by
    refine run?_eq_none ?_
    rintro d ⟨⟩
    exact Bool.eq_false_iff.2 fun hd => by simp [Writing.isBlank_of_isIdentifierChar hd] at hc
  simp [front?, visibility, hvisibility, hident]

/-- A line with the front of a member is trimmed at its end only. -/
theorem exists_append_of_front? {line : List Char} (h : (front? line).isSome) :
    ∃ blanks, line = trim line ++ blanks ∧ (∀ c ∈ blanks, isBlank c) ∧ Solid (trim line) := by
  cases line with
  | nil => cases h
  | cons c rest =>
      have hc : isBlank c = false := by
        refine Bool.eq_false_iff.2 fun hc => ?_
        simp [front?_cons_of_isBlank hc] at h
      have htrim : trim (c :: rest) = trimEnd (c :: rest) := by
        rw [trim, Text.trimStart_eq_self]
        rintro d ⟨⟩
        exact hc
      obtain ⟨blanks, heq, hblanks⟩ := Text.exists_eq_trimEnd_append (c :: rest)
      refine ⟨blanks, htrim ▸ heq, hblanks, htrim ▸ Text.solid_trimEnd fun hnil => ?_⟩
      rw [hnil, List.nil_append] at heq
      simp [hblanks c (heq ▸ List.mem_cons_self)] at hc

theorem front?_isSome_of_isMember {line : List Char} (h : isMember line) :
    (front? line).isSome := by
  rw [Option.isSome_iff_ne_none]
  intro hnone
  rw [front?] at hnone
  simp [isMember, operation?, attribute?, hnone] at h

/-- What reads as a member of a class reads alike when it is trimmed. -/
theorem features_trim {line : List Char} (h : isMember line) :
    operation? (trim line) = operation? line ∧ attribute? (trim line) = attribute? line := by
  have hfront := front?_isSome_of_isMember h
  obtain ⟨blanks, heq, hblanks, hsolid⟩ := exists_append_of_front? hfront
  rw [heq] at hfront
  have hoperation := operation?_append_blanks hblanks hsolid hfront
  have hattribute := attribute?_append_blanks hblanks hsolid hfront
  rw [← heq] at hoperation hattribute
  exact ⟨hoperation.symm, hattribute.symm⟩

theorem isMember_of_feature {line : List Char} {member : Member}
    (h : ((operation? line).map Member.ofOperation <|> (attribute? line).map .ofAttribute)
      = some member) : isMember line := by
  unfold isMember
  cases hoperation : operation? line with
  | some o => rfl
  | none =>
      rw [hoperation] at h
      cases hattribute : attribute? line with
      | some a => rfl
      | none => simp [hattribute] at h

/-- A literal is an identifier, and nothing else. -/
theorem eq_of_enumerationLiteral? {line : List Char} {name : String}
    (h : enumerationLiteral? line = some name) :
    line = name.toList ∧ Writing.ReadableName name := by
  unfold enumerationLiteral? at h
  split at h
  · next word hrun =>
      obtain ⟨hline, hne, hword⟩ := run?_eq_some hrun
      obtain rfl := Option.some.inj h
      refine ⟨by simpa using hline, by simpa using hne, ?_⟩
      simpa using hword
  · cases h

/-- A line that is a member as it stands is that member when it is trimmed. -/
theorem member?_trim {kind : ElementKind} {line : List Char} {member : Member}
    (h : member? kind line = some member) : member? kind (trim line) = some member := by
  cases kind with
  | package | actor | useCase => cases h
  | umlClass | interface =>
      obtain ⟨hoperation, hattribute⟩ := features_trim (isMember_of_feature h)
      simpa only [member?, hoperation, hattribute] using h
  | enumeration =>
      obtain ⟨name, hname, -⟩ := Option.map_eq_some_iff.1 h
      obtain ⟨rfl, hreadable⟩ := eq_of_enumerationLiteral? hname
      rwa [hreadable.trimmed.trim_eq]

/-- Only the end of a member line is trimmed. -/
theorem trim_prefix_of_member? {kind : ElementKind} {line : List Char} {member : Member}
    (h : member? kind line = some member) : trim line <+: line := by
  cases kind with
  | package | actor | useCase => cases h
  | umlClass | interface =>
      have hfront := front?_isSome_of_isMember (isMember_of_feature h)
      obtain ⟨blanks, hline, -⟩ := exists_append_of_front? hfront
      exact ⟨blanks, hline.symm⟩
  | enumeration =>
      obtain ⟨name, hname, -⟩ := Option.map_eq_some_iff.1 h
      obtain ⟨rfl, hreadable⟩ := eq_of_enumerationLiteral? hname
      exact ⟨[], by rw [hreadable.trimmed.trim_eq, List.append_nil]⟩

/-- A line that is passed over is passed over for its beginning. -/
theorem isIgnored_front {front line : List Char} (hline : front <+: line) (hne : front ≠ [])
    (h : isIgnored line = false) : isIgnored front = false := by
  simp only [isIgnored, Bool.or_eq_false_iff, List.isEmpty_eq_false_iff, List.any_eq_false,
    List.isPrefixOf_iff_prefix] at h ⊢
  exact ⟨hne, fun start hstart hfront => h.2 start hstart (hfront.trans hline)⟩

/-- A member line that is not passed over as it stands is not passed over when it is trimmed. -/
theorem isIgnored_trim {kind : ElementKind} {line : List Char} {member : Member}
    (h : member? kind line = some member) (hignored : isIgnored line = false) :
    isIgnored (trim line) = false := by
  refine isIgnored_front (trim_prefix_of_member? h) ?_ hignored
  intro hnil
  have hmember := member?_trim h
  rw [hnil] at hmember
  cases kind <;> cases hmember

end Line

end UmlText
